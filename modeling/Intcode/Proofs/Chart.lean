import Intcode.Chart
import Mathlib.Algebra.BigOperators.Group.List.Basic
import Mathlib.Algebra.GroupWithZero.Nat
import Mathlib.Data.List.Induction
import Mathlib.Data.Set.Card

/-!
# What charts say

A chart into which things have been entered one after the other says of each point what was entered
there last. The points of which it says something of a kind can be counted, and what it says of all
points can be summed up.
-/

namespace Intcode

section Latest

variable {α β : Type} {find : α → Option β} {l : List α}

/-- What is found in the last element in which something is found. -/
def latest (find : α → Option β) (l : List α) : Option β := l.reverse.findSome? find

theorem latest_concat (find : α → Option β) (l : List α) (a : α) :
    latest find (l ++ [a]) = (find a).or (latest find l) := by
  rw [latest, latest, List.reverse_append, List.findSome?_append, List.reverse_singleton,
    List.findSome?_singleton]

theorem latest_eq_none_iff : latest find l = none ↔ ∀ a ∈ l, find a = none := by
  simp only [latest, List.findSome?_eq_none_iff, List.mem_reverse]

end Latest

namespace Chart

section Entries

variable {α : Type} (chart : Chart α) (es : List (Point × α)) (p : Point)

def said? (p : Point) (e : Point × α) : Option α := if e.1 = p then some e.2 else none

/-- The chart after some entries, each at a point, one after the other. -/
def enter (chart : Chart α) (es : List (Point × α)) : Chart α :=
  es.foldl (fun known e => known.insert e.1 e.2) chart

theorem enter_concat (q : Point) (a : α) :
    chart.enter (es ++ [(q, a)]) = (chart.enter es).insert q a := by
  simp only [enter, List.foldl_append, List.foldl_cons, List.foldl_nil]

/-- The last entry at a point counts, and if there is none what was there from the start. -/
theorem getElem?_enter : (chart.enter es)[p]? = (latest (said? p) es).or chart[p]? := by
  induction es using List.reverseRecOn with
  | nil => rfl
  | append_singleton es e ih =>
    obtain ⟨q, a⟩ := e
    rw [enter_concat, Std.ExtTreeMap.getElem?_insert, latest_concat, ih, Option.or_assoc]
    simp only [Std.LawfulEqCmp.compare_eq_iff_eq, said?]
    split <;> rfl

theorem mem_enter : p ∈ chart.enter es ↔ p ∈ chart ∨ ∃ e ∈ es, e.1 = p := by
  have entered : (latest (said? p) es).isSome = true ↔ ∃ e ∈ es, e.1 = p := by
    rw [Option.isSome_iff_ne_none, ne_eq, latest_eq_none_iff]
    simp [said?]
  rw [Std.ExtTreeMap.mem_iff_isSome_getElem?, getElem?_enter, Option.isSome_or, Bool.or_eq_true,
    entered, or_comm, Std.ExtTreeMap.mem_iff_isSome_getElem?]

end Entries

section Count

variable {α : Type} (chart : Chart α)

theorem values_eq : chart.values = chart.toList.map Prod.snd := by
  have folded : chart.values = chart.foldr (fun _ a as => a :: as) [] := rfl
  rw [folded, Std.ExtTreeMap.foldr_eq_foldr_toList]
  induction chart.toList with
  | nil => rfl
  | cons e es ih =>
    rw [List.foldr_cons, ih]
    rfl

def points (kind : α → Bool) : List Point := (chart.toList.filter (kind ·.2)).map Prod.fst

theorem mem_points {kind : α → Bool} {p : Point} :
    p ∈ chart.points kind ↔ ∃ a, chart[p]? = some a ∧ kind a = true := by
  simp [points, Std.ExtTreeMap.mem_toList_iff_getElem?_eq_some]

theorem nodup_points (kind : α → Bool) : (chart.points kind).Nodup := by
  refine List.pairwise_map.mpr ((Std.ExtTreeMap.distinct_keys_toList.filter _).imp ?_)
  intro e f apart same
  exact apart (Std.LawfulEqCmp.compare_eq_iff_eq.mpr same)

theorem length_points (kind : α → Bool) :
    (chart.points kind).length = chart.values.countP kind := by
  rw [points, List.length_map, values_eq, List.countP_map, List.countP_eq_length_filter]
  rfl

/-- As many points are of a kind as entries are. -/
theorem encard_kind (kind : α → Bool) :
    {p : Point | ∃ a, chart[p]? = some a ∧ kind a = true}.encard = chart.values.countP kind := by
  have points :
      {p : Point | ∃ a, chart[p]? = some a ∧ kind a = true} = ↑(chart.points kind).toFinset := by
    ext p
    rw [Finset.mem_coe, List.mem_toFinset, mem_points, Set.mem_ofPred_eq]
  rw [points, Set.encard_coe_eq_coe_finsetCard,
    List.toFinset_card_of_nodup (chart.nodup_points kind), length_points]

theorem encard_size : {p | p ∈ chart}.encard = chart.size := by
  have known : {p | p ∈ chart} = ↑chart.keys.toFinset := by
    ext p
    rw [Finset.mem_coe, List.mem_toFinset, Std.ExtTreeMap.mem_keys, Set.mem_ofPred_eq]
  rw [known, Set.encard_coe_eq_coe_finsetCard,
    List.toFinset_card_of_nodup Std.ExtTreeMap.nodup_keys, Std.ExtTreeMap.length_keys]

end Count

section Sum

variable (chart : Chart Nat) (p : Point) (n : Nat)

/-- The sum of all that a chart says. -/
def total : Nat := (chart.toList.map Prod.snd).sum

def others : List (Point × Nat) := chart.toList.filter (·.1 ≠ p)

theorem nodup_toList : chart.toList.Nodup := by
  refine Std.ExtTreeMap.distinct_keys_toList.imp fun {a b} apart same => apart ?_
  rw [same]
  exact Std.ReflCmp.compare_self

theorem mem_others {q : Point × Nat} : q ∈ chart.others p ↔ chart[q.1]? = some q.2 ∧ q.1 ≠ p := by
  rw [others, List.mem_filter, decide_eq_true_iff, Std.ExtTreeMap.mem_toList_iff_getElem?_eq_some]

theorem nodup_others : (chart.others p).Nodup := chart.nodup_toList.filter _

theorem others_insert : (others (chart.insert p n) p).Perm (chart.others p) := by
  rw [List.perm_ext_iff_of_nodup (nodup_others _ p) (chart.nodup_others p)]
  intro q
  simp only [mem_others, Std.ExtTreeMap.getElem?_insert, Std.LawfulEqCmp.compare_eq_iff_eq]
  refine and_congr_left fun elsewhere => ?_
  rw [if_neg (Ne.symm elsewhere)]

/-- What a chart says of a point can be put first. -/
theorem toList_perm (said : chart[p]? = some n) : chart.toList.Perm ((p, n) :: chart.others p) := by
  have first : (p, n) ∉ chart.others p := fun mem => ((chart.mem_others p).mp mem).2 rfl
  have nodup := List.nodup_cons.mpr ⟨first, chart.nodup_others p⟩
  rw [List.perm_ext_iff_of_nodup chart.nodup_toList nodup]
  rintro ⟨q, k⟩
  rw [Std.ExtTreeMap.mem_toList_iff_getElem?_eq_some, List.mem_cons, mem_others, Prod.mk_inj]
  by_cases here : q = p
  · subst here
    rw [said]
    simp [eq_comm]
  · simp [here]

/-- What a chart says of one point, and of all others. -/
theorem total_eq : chart.total = chart.getD p 0 + ((chart.others p).map Prod.snd).sum := by
  rw [Std.ExtTreeMap.getD_eq_getD_getElem?, total]
  cases said : chart[p]? with
  | some n =>
    rw [((chart.toList_perm p n said).map Prod.snd).sum_eq]
    exact List.sum_cons
  | none =>
    rw [others, List.filter_eq_self.mpr]
    · exact (Nat.zero_add _).symm
    rintro ⟨q, n⟩ mem
    rw [decide_eq_true_iff]
    rintro rfl
    rw [Std.ExtTreeMap.mem_toList_iff_getElem?_eq_some, said] at mem
    cases mem

theorem getD_le_total : chart.getD p 0 ≤ chart.total := by
  have sum := chart.total_eq p
  omega

/-- An entry takes the place of what was said before. -/
theorem total_insert : total (chart.insert p n) + chart.getD p 0 = chart.total + n := by
  have before := chart.total_eq p
  have after := total_eq (chart.insert p n) p
  rw [((chart.others_insert p n).map Prod.snd).sum_eq, Std.ExtTreeMap.getD_insert_self] at after
  omega

end Sum

end Chart

end Intcode
