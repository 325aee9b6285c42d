import MethodPatch.Expression.Node
import MethodPatch.TypeName

set_option autoImplicit false

namespace MethodPatch

/-- A test for the expressions of one kind; it is never put to those visited as another. -/
structure Matcher where
  kind : ExpressionKind
  test : Expression → Bool

def Matcher.accepts (matcher : Matcher) (visit : Visit) : Bool :=
  matcher.kind == visit.kind && matcher.test visit.expression

inductive FieldAccess where
  | read
  | write
deriving DecidableEq, Repr

/-- What is asked of the expressions of one kind. The owner may be spelled in any form of the type's
name. -/
structure Criteria where
  kind : ExpressionKind
  owner : Option String
  name : Option String
  descriptor : Option String
  access : Option FieldAccess
deriving DecidableEq, Repr

namespace Criteria

/-- Asks for nothing but the kind. -/
def ofKind (kind : ExpressionKind) : Criteria := ⟨kind, none, none, none, none⟩

def ownedBy (criteria : Criteria) (owner : String) : Criteria :=
  { criteria with owner := some owner }

def named (criteria : Criteria) (name : String) : Criteria :=
  { criteria with name := some name }

def describedBy (criteria : Criteria) (descriptor : String) : Criteria :=
  { criteria with descriptor := some descriptor }

def accessedBy (criteria : Criteria) (access : FieldAccess) : Criteria :=
  { criteria with access := some access }

def methodCall (name : String) : Criteria := (ofKind .methodCall).named name

def field (owner name : String) : Criteria := ((ofKind .fieldAccess).ownedBy owner).named name

/-- Whether an expression has all that is asked for. What it lacks meets no demand. -/
def admits (criteria : Criteria) (expression : Expression) : Bool :=
  criteria.owner.all (fun owner => expression.detail.ownerType.any (TypeName.same owner)) &&
    criteria.name.all (fun name => expression.detail.memberName == some name) &&
    criteria.descriptor.all (fun text => expression.detail.descriptor == some text) &&
    criteria.access.all (fun access => expression.detail.writes == some (access == .write))

def matcher (criteria : Criteria) : Matcher := ⟨criteria.kind, criteria.admits⟩

/-- The criteria in short: the kind, then the member asked for. A descriptor shows only beside an
owner or a name. -/
def summary (criteria : Criteria) : String :=
  let descriptor := criteria.descriptor.getD ""
  let kind := criteria.kind.label
  match criteria.owner, criteria.name with
  | some owner, some name => kind ++ "(" ++ owner ++ "." ++ name ++ descriptor ++ ")"
  | some owner, none => kind ++ "(" ++ owner ++ descriptor ++ ")"
  | none, some name => kind ++ "(" ++ name ++ descriptor ++ ")"
  | none, none => kind

end Criteria

end MethodPatch
