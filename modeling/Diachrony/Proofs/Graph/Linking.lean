import Diachrony.Proofs.Graph.Sparing

/-!
# Each link is stored once

A link is stored under the words that it leads between and its kind.  Whatever edits are made,
no two links have these in common: an edit that changes a link puts it in its own place, and
what a deletion leaves was there before.
-/
namespace Diachrony

open Table (IsKept)

namespace Graph

/-- A graph in which each link is stored once, under its own key. -/
def KeepsLinks (graph : Graph) : Prop := IsKept Link.key (fun _ => True) graph.links

variable {graph : Graph}

theorem keepsLinks_empty : KeepsLinks {} := .empty

theorem KeepsLinks.putLink (keeps : graph.KeepsLinks) (link : Link) :
    KeepsLinks { graph with links := graph.links.insert link.key link } :=
  keeps.insert rfl trivial

theorem KeepsLinks.eraseLink (keeps : graph.KeepsLinks) (key : LinkKey) :
    KeepsLinks { graph with links := graph.links.erase key } :=
  (keeps.erase key).mono fun _ _ => trivial

theorem KeepsLinks.withoutWord (keeps : graph.KeepsLinks) (id : Int) :
    (Edit.withoutWord graph id).KeepsLinks :=
  (keeps.filter fun _ link => link.source != id && link.target != id).mono fun _ _ => trivial

theorem KeepsLinks.withoutRule (keeps : graph.KeepsLinks) (id : Int) (name : Text) :
    (Edit.withoutRule graph id name).KeepsLinks :=
  keeps.mapValues (·.withoutRule id) (fun _ => rfl) fun _ _ => trivial

end Graph

namespace Edit

open Diachrony.Graph (KeepsLinks)

theorem keepsLinks_deleteWord (id : Int) : (deleteWord id).Keeps KeepsLinks :=
  (onlyAsks_ask _).keeps.bind fun _ => keeps_modify fun _ keeps => keeps.withoutWord id

theorem keepsLinks_deleteRule (id : Int) : (deleteRule id).Keeps KeepsLinks :=
  onlyAsks_get.keeps.bind fun _ => (onlyAsks_ask _).keeps.bind fun rule =>
    (onlyAsks_refuse _).keeps.bind fun _ => keeps_modify fun _ keeps =>
      keeps.withoutRule id rule.name

theorem keepsLinks_putLink (link : Link) : (putLink link).Keeps KeepsLinks :=
  keeps_modify fun _ keeps => keeps.putLink link

theorem keepsLinks_enterLink (record : Fields) : (enterLink record).Keeps KeepsLinks := by
  refine (onlyAsks_needField _ _).keeps.bind fun source => ?_
  refine (onlyAsks_needField _ _).keeps.bind fun target => ?_
  refine (onlyAsks_needField _ _).keeps.bind fun kind => (onlyAsks_lift _).keeps.bind fun _ => ?_
  refine (onlyAsks_lift _).keeps.bind fun link => (onlyAsks_checkLink _).keeps.bind fun _ => ?_
  refine onlyAsks_get.keeps.bind fun _ => (onlyAsks_refuseIf _ _).keeps.bind fun _ => ?_
  exact (keepsLinks_putLink _).bind fun _ => (onlyAsks_pure _).keeps

theorem keepsLinks_updateLink (link : Link) : (updateLink link).Keeps KeepsLinks :=
  (onlyAsks_requireLink _).keeps.bind fun _ => (onlyAsks_checkLink _).keeps.bind fun _ =>
    (keepsLinks_putLink _).bind fun _ => (onlyAsks_pure _).keeps

theorem keepsLinks_deleteLink (key : LinkKey) : (deleteLink key).Keeps KeepsLinks :=
  (onlyAsks_requireLink _).keeps.bind fun _ => keeps_modify fun _ keeps => keeps.eraseLink key

end Edit

namespace Mutation

open Edit

/-- A mutation that is not about links leaves them in their places. -/
theorem keepsLinks_of_isIgnored {mutation : Mutation}
    (ignored : mutation.IsIgnoredBy Graph.links) : mutation.run.Keeps Graph.KeepsLinks :=
  (spares_run ignored).keeps fun before after same keeps => by
    unfold Graph.KeepsLinks
    rw [same]
    exact keeps

theorem keepsLinks_run (mutation : Mutation) : mutation.run.Keeps Graph.KeepsLinks := by
  cases mutation with
  | deleteWord id => exact keepsLinks_deleteWord id
  | deleteRule id => exact keepsLinks_deleteRule id
  | addLink record => exact (keepsLinks_enterLink record).passOver
  | updateLink link => exact (keepsLinks_updateLink link).passOver
  | deleteLink key => exact keepsLinks_deleteLink key
  | addLanguage | setLanguage | addPhoneme | deletePhoneme | advanceIds =>
      exact keepsLinks_of_isIgnored fun _ _ => rfl
  | addWord | updateWord | addSequence | updateSteps | addParadigm | addTemplate | setCell
  | addCompound => exact keepsLinks_of_isIgnored fun _ _ _ => rfl
  | reserveRule | registerRules | addRule | updateRule =>
      exact keepsLinks_of_isIgnored fun _ _ _ _ => rfl

end Mutation

/-- In every graph that a run of mutations comes to, each link is stored once. -/
theorem Graph.IsReachable.keepsLinks {graph : Graph} (isReachable : graph.IsReachable) :
    graph.KeepsLinks :=
  isReachable.kept keepsLinks_empty fun mutation _ => mutation.keepsLinks_run

end Diachrony
