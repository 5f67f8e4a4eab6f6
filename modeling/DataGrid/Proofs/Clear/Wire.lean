import DataGrid.Clear.Message
import DataGrid.Proofs.Member.Json

/-
What the members of a clear say to each other arrives as it was sent
(`ClearMessage.arrives_as_sent`): the message or reply that is read from a
text is the one that was written, in every field and for all texts in it.
-/

namespace DataGrid

open Json

theorem Ulid.survives (u : Ulid) : Survives toJson ofJson? u :=
  ⟨.text _, by rw [toJson, ofJson?, asText, Option.bind_some, parse_text]⟩

theorem Operation.survives (o : Operation) : Survives (.text ·.name) (asVariant byName) o :=
  ⟨.text _, by cases o <;> rfl⟩

theorem ClearOperation.survives (o : ClearOperation) :
    Survives (.text ·.name) (asVariant byName) o :=
  ⟨.text _, by cases o <;> rfl⟩

namespace RegionEvent

/-- A set of texts is written in ascending order and comes back as it was. -/
theorem survives_clients (s : OrdSet String) : Survives clientsToJson clientsOfJson? s := by
  have hlist : Survives (.list .text) (asList asText) s.toList :=
    .list fun c _ => survives_text c
  have hfields : fieldsNamed ["clients"] (clientsToJson s) =
      some [.given (.list .text s.toList)] :=
    fieldsNamed_object rfl (by decide)
  refine ⟨.object ?_, ?_⟩
  · simp [hlist.whole]
  · simp [clientsOfJson?, hfields, Field.required, hlist.reads, OrdSet.insertAll_toList]

theorem survives (e : RegionEvent) : Survives toJson ofJson? e := by
  have hid := e.id.survives
  have horigin := e.origin.survives
  have hoperation := e.operation.survives
  have hargument := survives_text? e.argument
  have hclients : Survives (.option clientsToJson) (asOption clientsOfJson?) e.clients :=
    .option (fun s _ => survives_clients s) nofun
  have hfields : fieldsNamed fieldNames e.toJson = some [
      .given e.id.toJson, .given (.text e.region), .given e.origin.toJson,
      .given (.text e.operation.name), .given (.bool e.originRemote),
      .given (.option .text e.argument), .given (.option clientsToJson e.clients)] :=
    fieldsNamed_object rfl (by decide)
  refine ⟨.object ?_, ?_⟩
  · simp [hid.whole, (survives_text _).whole, horigin.whole, (survives_bool _).whole,
      hargument.whole, hclients.whole]
  · simp [ofJson?, hfields, Field.required, Field.optional, hid.reads, (survives_text _).reads,
      horigin.reads, hoperation.reads, (survives_bool _).reads, hargument.reads, hclients.reads]

end RegionEvent

namespace ClearMessage

theorem survives (m : ClearMessage) : Survives toJson ofJson? m := by
  have hid := m.id.survives
  have hsender := m.sender.survives
  have hoperation := m.operation.survives
  have hevent := m.event.survives
  have hfields : fieldsNamed fieldNames m.toJson = some [
      .given m.id.toJson, .given (.text m.region), .given m.sender.toJson,
      .given (.text m.operation.name), .given m.event.toJson] :=
    fieldsNamed_object rfl (by decide)
  refine ⟨.object ?_, ?_⟩
  · simp [hid.whole, (survives_text _).whole, hsender.whole, hevent.whole]
  · simp [ofJson?, hfields, Field.required, hid.reads, (survives_text _).reads, hsender.reads,
      hoperation.reads, hevent.reads]

/-- The message tells of the event as of one from another member. -/
structure TellsOf (m : ClearMessage) (e : RegionEvent) : Prop where
  region : m.region = e.region
  /-- the event that is told of, with all that identifies it -/
  event : m.event.id = e.id ∧ m.event.region = e.region ∧ m.event.origin = e.origin
    ∧ m.event.operation = e.operation ∧ m.event.argument = e.argument
  remote : m.event.originRemote = true
  clients : m.event.clients = none

theorem about_tellsOf (id : Ulid) (sender : Member) (operation : ClearOperation)
    (e : RegionEvent) : (about id sender operation e).TellsOf e :=
  ⟨rfl, ⟨rfl, rfl, rfl, rfl, rfl⟩, rfl, rfl⟩

end ClearMessage

/-- A reply survives if its buckets have numbers of 32 bits. -/
theorem ClearReply.survives {r : ClearReply} (hcleared : ∀ b ∈ r.cleared, b < UInt32.size) :
    Survives toJson ofJson? r := by
  have hid := r.messageId.survives
  have hsender := r.sender.survives
  have hbuckets : Survives (.list .nat) (asList (asNat 32)) r.cleared :=
    .list fun b hb => survives_nat (hcleared b hb)
  have herror := survives_text? r.error
  have hfields : fieldsNamed fieldNames r.toJson = some [
      .given r.messageId.toJson, .given r.sender.toJson, .given (.list .nat r.cleared),
      .given (.option .text r.error)] :=
    fieldsNamed_object rfl (by decide)
  refine ⟨.object ?_, ?_⟩
  · simp [hid.whole, hsender.whole, hbuckets.whole, herror.whole]
  · simp [ofJson?, hfields, Field.required, Field.optional, hid.reads, hsender.reads,
      hbuckets.reads, herror.reads]

/-- Every message and every reply is read from its text as it was written. A message about an
event asks what it was made to ask, and tells its receiver of the event as of a remote one. -/
theorem ClearMessage.arrives_as_sent :
    (∀ m : ClearMessage, ClearMessage.parse m.toJson.render = some m)
    ∧ (∀ r : ClearReply, (∀ b ∈ r.cleared, b < UInt32.size) →
        ClearReply.parse r.toJson.render = some r)
    ∧ ∀ (id : Ulid) (sender : Member) (operation : ClearOperation) (e : RegionEvent),
        ∃ m, ClearMessage.parse (about id sender operation e).toJson.render = some m
          ∧ m.id = id ∧ m.sender = sender ∧ m.operation = operation ∧ m.TellsOf e :=
  ⟨fun m => m.survives.parse, fun _ hcleared => (ClearReply.survives hcleared).parse,
    fun id sender operation e => ⟨about id sender operation e, (survives _).parse, rfl, rfl, rfl,
      about_tellsOf id sender operation e⟩⟩

/-- A reply whose error has quotes, control characters and letters beyond ASCII, from a member
with a compressed address. -/
theorem ClearMessage.arrives_as_sent_escaped :
    let sender : Member := {
      address := .v6 #v[0x2001, 0xdb8, 0, 0, 0, 0, 0xff, 1], port := 10334, processId := 4294967295
      viewId := -2147483648, name := some "\"left\\right\"", tag := none }
    let reply : ClearReply := {
      messageId := ⟨BitVec.allOnes 128⟩, sender := sender, cleared := [7, 4294967295, 7]
      error := some "línea\n\u0001\t\"𝄞\"" }
    (∀ b ∈ reply.cleared, b < UInt32.size)
      ∧ ClearReply.parse reply.toJson.render = some reply := by
  intro sender reply
  have hcleared : ∀ b ∈ reply.cleared, b < UInt32.size := by decide
  exact ⟨hcleared, ClearMessage.arrives_as_sent.2.1 reply hcleared⟩

end DataGrid
