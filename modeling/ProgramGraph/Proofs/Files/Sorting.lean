import Mathlib.Data.List.Basic
import ProgramGraph.Files.Path

set_option autoImplicit false

/-!
# The order of paths

Paths are ordered component by component, so any two of them can be compared, and whoever sorts by this
order and leaves something out afterwards might as well have left it out before.

## Main results

* `ProgramGraph.Path.le_trans`, `ProgramGraph.Path.le_total` — paths are ordered.
* `ProgramGraph.Path.filter_mergeSort` — sorting and leaving out can be exchanged.
-/

namespace ProgramGraph.Path

/-! ## Components -/

/-- Names are ordered by their code points. -/
theorem Component.name_lt {s t : String} : (name s).lt (name t) = true ↔ s < t := decide_eq_true_iff

/-- The order of the parts of paths is transitive. -/
theorem Component.lt_trans {a b c : Component} (h : a.lt b = true) (h' : b.lt c = true) : a.lt c = true := by
  -- either all of them are names, or two are of different sorts
  cases a <;> cases b <;> cases c <;> first
    | exact name_lt.mpr (String.lt_trans (name_lt.mp h) (name_lt.mp h'))
    | exact rfl
    | exact absurd h Bool.false_ne_true
    | exact absurd h' Bool.false_ne_true

/-- Different components can be compared. -/
theorem Component.lt_or_eq_or_lt (a b : Component) : a.lt b = true ∨ a = b ∨ b.lt a = true := by
  cases a with
  | name s =>
    cases b with
    | name t =>
      by_cases hlt : s < t
      · exact .inl (name_lt.mpr hlt)
      · by_cases hgt : t < s
        · exact .inr (.inr (name_lt.mpr hgt))
        · exact .inr (.inl (congrArg _ (String.le_antisymm (String.not_lt.mp hgt) (String.not_lt.mp hlt))))
    | _ => exact .inr (.inr rfl)
  | _ => cases b <;> first | exact .inl rfl | exact .inr (.inl rfl) | exact .inr (.inr rfl)

/-! ## Paths -/

/-- The order of paths is transitive: the first parts that differ decide. -/
theorem leComponents_trans {as bs cs : List Component} (h : leComponents as bs = true)
    (h' : leComponents bs cs = true) : leComponents as cs = true := by
  induction as generalizing bs cs with
  | nil => rfl
  | cons a as ih =>
    cases bs with
    | nil => exact absurd h (by simp [leComponents])
    | cons b bs =>
      cases cs with
      | nil => exact absurd h' (by simp [leComponents])
      | cons c cs =>
        simp only [leComponents, Bool.or_eq_true, Bool.and_eq_true, beq_iff_eq] at h h' ⊢
        rcases h with h | ⟨rfl, h⟩
        · rcases h' with h' | ⟨rfl, -⟩
          · exact .inl (Component.lt_trans h h')
          · exact .inl h
        · rcases h' with h' | ⟨rfl, h'⟩
          · exact .inl h'
          · exact .inr ⟨rfl, ih h h'⟩

/-- Any two paths are in order one way or the other. -/
theorem leComponents_total (as bs : List Component) :
    leComponents as bs = true ∨ leComponents bs as = true := by
  induction as generalizing bs with
  | nil => exact .inl rfl
  | cons a as ih =>
    cases bs with
    | nil => exact .inr rfl
    | cons b bs =>
      simp only [leComponents, Bool.or_eq_true, Bool.and_eq_true, beq_iff_eq]
      rcases Component.lt_or_eq_or_lt a b with hlt | rfl | hgt
      · exact .inl (.inl hlt)
      · exact (ih bs).imp (fun h => .inr ⟨rfl, h⟩) fun h => .inr ⟨rfl, h⟩
      · exact .inr (.inl hgt)

/-- The order of paths is transitive. -/
theorem le_trans {a b c : String} (h : le a b = true) (h' : le b c = true) : le a c = true :=
  leComponents_trans h h'

/-- Any two paths can be compared. -/
theorem le_total (a b : String) : le a b = true ∨ le b a = true := leComponents_total _ _

/-! ## Sorting -/

/-- Where a list is cut into what comes before an element and what does not, it is cut in one way. -/
theorem append_unique {α : Type} {p : α → Bool} {l₁ l₂ m₁ m₂ : List α}
    (heq : l₁ ++ l₂ = m₁ ++ m₂) (hl₁ : ∀ x ∈ l₁, p x = true) (hl₂ : ∀ x ∈ l₂, p x = false)
    (hm₁ : ∀ x ∈ m₁, p x = true) (hm₂ : ∀ x ∈ m₂, p x = false) : l₁ = m₁ ∧ l₂ = m₂ := by
  have hfilter := congrArg (List.filter p) heq
  have hothers := congrArg (List.filter fun x => !p x) heq
  rw [List.filter_append, List.filter_append] at hfilter hothers
  rw [List.filter_eq_self.mpr hl₁, List.filter_eq_nil_iff.mpr (by simpa using hl₂),
    List.filter_eq_self.mpr hm₁, List.filter_eq_nil_iff.mpr (by simpa using hm₂)] at hfilter
  rw [List.filter_eq_nil_iff.mpr (by simpa using hl₁), List.filter_eq_self.mpr (by simpa using hl₂),
    List.filter_eq_nil_iff.mpr (by simpa using hm₁), List.filter_eq_self.mpr (by simpa using hm₂)] at hothers
  exact ⟨by simpa using hfilter, by simpa using hothers⟩

/-- **Sorting and leaving out can be exchanged.** An element is put in front of the first one that does
not come before it, and this place is the same among fewer elements.

**Proof sketch.** Induction on the list. Sorting puts the first element at a place between the others, up to
which all come before it and behind which none does. Such a place is unique, so it is the same one after the
others were left out. -/
theorem filter_mergeSort {α : Type} (path : α → String) (keep : α → Bool) (l : List α) :
    (l.filter keep).mergeSort (fun a b => le (path a) (path b)) =
      (l.mergeSort fun a b => le (path a) (path b)).filter keep := by
  have trans : ∀ a b c : α, le (path a) (path b) = true → le (path b) (path c) = true →
      le (path a) (path c) = true := fun _ _ _ => le_trans
  have total : ∀ a b : α, (le (path a) (path b) || le (path b) (path a)) = true := by
    intro a b
    simpa using le_total (path a) (path b)
  induction l with
  | nil => simp
  | cons a l ih =>
    obtain ⟨l₁, l₂, hall, hrest, hbefore⟩ := List.mergeSort_cons trans total a l
    rw [hrest, List.filter_append] at ih
    rw [hall]
    cases hkeep : keep a with
    | false => rw [List.filter_cons_of_neg (by simp [hkeep]), List.filter_append,
        List.filter_cons_of_neg (by simp [hkeep]), ih]
    | true =>
      rw [List.filter_cons_of_pos hkeep, List.filter_append, List.filter_cons_of_pos hkeep]
      obtain ⟨m₁, m₂, hsome, hothers, hfirst⟩ := List.mergeSort_cons trans total a (l.filter keep)
      -- whatever stands behind the element does not come before it
      have hbehind : ∀ {xs ys : List α} {zs : List α},
          zs.mergeSort (fun a b => le (path a) (path b)) = xs ++ a :: ys →
          ∀ b ∈ ys, (!le (path a) (path b)) = false := by
        intro xs ys zs hsort b hb
        have hsorted := List.pairwise_mergeSort trans total zs
        rw [hsort, List.pairwise_append] at hsorted
        simpa using List.rel_of_pairwise_cons hsorted.2.1 hb
      obtain ⟨h₁, h₂⟩ := append_unique (p := fun b => !le (path a) (path b)) (hothers.symm.trans ih)
        hfirst (hbehind hsome) (fun b hb => hbefore b (List.mem_of_mem_filter hb))
        (fun b hb => hbehind hall b (List.mem_of_mem_filter hb))
      rw [hsome, h₁, h₂]

end ProgramGraph.Path
