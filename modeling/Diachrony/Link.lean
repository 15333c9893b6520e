import Diachrony.Text.Basic

namespace Diachrony

/-- The kinds of links. -/
inductive LinkKind where
  | derived | related | variant | component
  deriving DecidableEq

namespace LinkKind

def name : LinkKind → Text
  | derived => "derived"
  | related => "related"
  | variant => "variant"
  | component => "component"

def every : List LinkKind := [derived, related, variant, component]

def ofName? (name : Text) : Option LinkKind :=
  every.find? fun kind => kind.name == name

end LinkKind

/-- What tells a link from all others. -/
structure LinkKey where
  source : Int
  target : Int
  kind : LinkKind
  deriving DecidableEq

/-- A link from a word to the word it comes from or belongs to, with the rules
that led from the target to the source, and the sequence they were part of. -/
structure Link where
  source : Int
  target : Int
  kind : LinkKind := .derived
  rules : List Int := []
  sequence : Option Int := none
  reference : Option Text := none
  notes : Option Text := none

def Link.key (link : Link) : LinkKey := ⟨link.source, link.target, link.kind⟩

/-- A compound word and the words it is made of, in order. -/
structure Compound where
  id : Int
  whole : Int
  components : List Int := []

end Diachrony
