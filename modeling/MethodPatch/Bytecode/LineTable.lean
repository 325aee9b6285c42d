set_option autoImplicit false

namespace MethodPatch

structure LineEntry where
  start : UInt32
  line : UInt32
deriving DecidableEq, Repr

namespace LineTable

/-- The entry that starts last; of several the one that stands last. -/
def latest (table : List LineEntry) : Option LineEntry :=
  table.foldl (fun held entry =>
    match held with
    | none => some entry
    | some best => if best.start ≤ entry.start then some entry else some best) none

/-- The entry that starts first; of several the one that stands first. -/
def earliest (table : List LineEntry) : Option LineEntry :=
  table.foldl (fun held entry =>
    match held with
    | none => some entry
    | some best => if entry.start < best.start then some entry else some best) none

/-- The source line of the code at an offset; before every start, the line of the earliest entry. -/
def lineAt (table : List LineEntry) (offset : UInt32) : Option UInt32 :=
  match latest (table.filter fun entry => entry.start ≤ offset) with
  | some entry => some entry.line
  | none => (earliest table).map (·.line)

end LineTable

end MethodPatch
