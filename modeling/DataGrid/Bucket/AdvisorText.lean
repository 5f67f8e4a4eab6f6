import DataGrid.Bucket.Advisor

/-
The texts of an advisor: the names of its state, and the whole of it, for logs.
-/

namespace DataGrid

namespace PrimaryState

def name : PrimaryState → String
  | .noPrimaryNotHosting => "NoPrimaryNotHosting"
  | .noPrimaryHosting => "NoPrimaryHosting"
  | .otherPrimaryNotHosting => "OtherPrimaryNotHosting"
  | .otherPrimaryHosting => "OtherPrimaryHosting"
  | .volunteering => "Volunteering"
  | .isPrimaryHosting => "IsPrimaryHosting"
  | .closed => "Closed"

def text : PrimaryState → String
  | .noPrimaryNotHosting => "NO_PRIMARY_NOT_HOSTING"
  | .noPrimaryHosting => "NO_PRIMARY_HOSTING"
  | .otherPrimaryNotHosting => "OTHER_PRIMARY_NOT_HOSTING"
  | .otherPrimaryHosting => "OTHER_PRIMARY_HOSTING"
  | .volunteering => "VOLUNTEERING_HOSTING"
  | .isPrimaryHosting => "IS_PRIMARY_HOSTING"
  | .closed => "CLOSED"

end PrimaryState

/-- Fields of a record in braces. -/
def recordText (name : String) (fields : List (String × String)) : String :=
  name ++ " \x7b " ++ ", ".intercalate (fields.map fun f => f.1 ++ ": " ++ f.2) ++ " \x7d"

def Member.fullText (m : Member) : String := recordText "MemberIdentity" [
  ("address", m.address.text),
  ("membership_port", toString m.port.toNat),
  ("process_id", toString m.processId.toNat),
  ("view_id", toString m.viewId.toInt),
  ("name", Text.quotedOption m.name),
  ("unique_tag", Text.quotedOption m.tag)]

def Advisor.fullText (a : Advisor) : String := recordText "BucketAdvisor" [
  ("bucket_id", toString a.bucketId),
  ("local", a.member.fullText),
  ("state", a.state.name),
  ("primary", match a.primary with
    | some p => "Some(" ++ p.fullText ++ ")"
    | none => "None"),
  ("hosting_members", toString a.hostingMembers.size)]

end DataGrid
