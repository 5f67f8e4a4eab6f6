import DataGrid.Report.Basic
import DataGrid.Version.Conflict

/-
Reports of versions: tags, stamps, holders, vectors and verdicts.
-/

namespace DataGrid

open Report

instance : Report VersionTag where
  report t := .object [
    part "m" t.member, part "ev" t.entryVersion, part "rv" t.regionVersion,
    part "ts" t.timestamp, part "prev" t.previousMember]

instance : Report VersionStamp where
  report s := .object [
    part "m" s.member, part "ev" s.entryVersion, part "rv" s.regionVersion,
    part "ts" s.timestamp]

def VersionTag.details (t : VersionTag) : Json := .object [
  part "tag" t, part "disp" t.text, part "valid" t.isValid, part "json" t.toJson.render]

instance : Report Gap := ⟨fun g => report (g.low, g.high)⟩

instance : Report Holder := ⟨fun h => .object [part "v" h.version, part "ex" h.gaps]⟩

instance : Report VersionVector where
  report v := .object [
    part "owner" v.owner, part "local" v.localVersion, part "holders" v.holders,
    part "gc" v.gcVersions]

instance : Report Verdict where
  report
    | .apply => .text "Apply"
    | .stale => .text "Stale"
    | .duplicate => .text "Duplicate"

def VersionError.kind : VersionError → String
  | .missingMember _ => "MissingMember"
  | .invalidTag _ => "InvalidTag"

instance : Report VersionError := ⟨fun e => failure e.kind e.message⟩

end DataGrid
