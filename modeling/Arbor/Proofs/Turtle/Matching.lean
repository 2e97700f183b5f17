import Arbor.Grammar.Basic
import Mathlib.Data.List.Induction
import Mathlib.Order.Basic

/-! # Matching brackets of a word

A closing bracket belongs to the nearest opening one that is still open, which is the
one from which on the word between is balanced.
-/

namespace Arbor.Turtle

/-- Every bracket has its partner: no prefix has more closing brackets than opening ones,
and the whole word has as many of both. -/
structure Balanced (w : Word) : Prop where
  closing_le : ∀ u, u <+: w → u.count ']' ≤ u.count '['
  count_eq : w.count '[' = w.count ']'

/-- The bracket at `j` closes the one at `i`: what lies between them is balanced. -/
structure Closes (w : Word) (i j : Nat) : Prop where
  opening : w[i]? = some '['
  closing : w[j]? = some ']'
  lt : i < j
  between : Balanced ((w.take j).drop (i + 1))

def noteBracket (position : Nat) (opened : List Nat) : Char → List Nat
  | '[' => position :: opened
  | ']' => opened.tail
  | _ => opened

def openFrom : (position : Nat) → (opened : List Nat) → Word → List Nat
  | _, opened, [] => opened
  | position, opened, c :: rest => openFrom (position + 1) (noteBracket position opened c) rest

/-- The positions of the brackets that a word leaves open, nearest first. -/
def openBrackets (w : Word) : List Nat := openFrom 0 [] w

/-! ## The scan -/

theorem bracket_cases (c : Char) : c = '[' ∨ c = ']' ∨ c ≠ '[' ∧ c ≠ ']' := by
  by_cases hl : c = '['
  · exact .inl hl
  · by_cases hr : c = ']'
    · exact .inr (.inl hr)
    · exact .inr (.inr ⟨hl, hr⟩)

theorem noteBracket_of_ne {c : Char} (hl : c ≠ '[') (hr : c ≠ ']') (position : Nat)
    (opened : List Nat) : noteBracket position opened c = opened := by
  unfold noteBracket
  split <;> trivial

theorem openFrom_append (position : Nat) (opened : List Nat) (u v : Word) :
    openFrom position opened (u ++ v) =
      openFrom (position + u.length) (openFrom position opened u) v := by
  induction u generalizing position opened with
  | nil => rfl
  | cons c u ih =>
    rw [List.cons_append, openFrom, ih, List.length_cons, Nat.add_assoc, Nat.add_comm 1]
    rfl

theorem openBrackets_append (u v : Word) :
    openBrackets (u ++ v) = openFrom u.length (openBrackets u) v := by
  rw [openBrackets, openFrom_append, Nat.zero_add, openBrackets]

theorem openBrackets_concat (w : Word) (c : Char) :
    openBrackets (w ++ [c]) = noteBracket w.length (openBrackets w) c :=
  openBrackets_append w [c]

theorem exists_openFrom_eq_append {b : Word} (hb : ∀ u, u <+: b → u.count ']' ≤ u.count '[')
    (position : Nat) (opened : List Nat) :
    ∃ added, openFrom position opened b = added ++ opened ∧
      added.length + b.count ']' = b.count '[' := by
  induction b using List.reverseRecOn with
  | nil => exact ⟨[], rfl, rfl⟩
  | append_singleton b c ih =>
    obtain ⟨added, he, hc⟩ := ih fun u hu => hb u (hu.trans (List.prefix_append b [c]))
    have hbc := hb _ List.prefix_rfl
    rw [openFrom_append, he]
    simp only [List.count_append, List.count_singleton] at hbc ⊢
    rcases bracket_cases c with rfl | rfl | ⟨hl, hr⟩
    · exact ⟨(position + b.length) :: added, rfl, by simp; omega⟩
    · cases added with
      | nil => simp at hbc hc; omega
      | cons p added => exact ⟨added, rfl, by simp at hc ⊢; omega⟩
    · refine ⟨added, noteBracket_of_ne hl hr _ _, ?_⟩
      simp [hl, hr, hc]

theorem Balanced.openFrom_eq {b : Word} (hb : Balanced b) (position : Nat) (opened : List Nat) :
    openFrom position opened b = opened := by
  obtain ⟨added, he, hc⟩ := exists_openFrom_eq_append hb.closing_le position opened
  have hz : added.length = 0 := by have := hb.count_eq; omega
  rw [he, List.length_eq_zero_iff.mp hz, List.nil_append]

/-! ## Balanced words -/

theorem Balanced.nil : Balanced [] :=
  ⟨fun u hu => by rw [List.prefix_nil.mp hu]; exact Nat.le_refl _, rfl⟩

theorem Balanced.append {a b : Word} (ha : Balanced a) (hb : Balanced b) : Balanced (a ++ b) := by
  constructor
  · intro u hu
    rw [List.prefix_iff_eq_take.mp hu, List.take_append, List.count_append, List.count_append]
    exact Nat.add_le_add (ha.closing_le _ (List.take_prefix ..))
      (hb.closing_le _ (List.take_prefix ..))
  · rw [List.count_append, List.count_append, ha.count_eq, hb.count_eq]

theorem Balanced.enclose {b : Word} (hb : Balanced b) : Balanced ('[' :: (b ++ [']'])) := by
  constructor
  · intro u hu
    rcases List.prefix_cons_iff.mp hu with rfl | ⟨v, rfl, hv⟩
    · exact Nat.le_refl _
    · rcases List.prefix_concat_iff.mp hv with rfl | hv
      · simp [hb.count_eq]
      · have := hb.closing_le v hv
        simp
        omega
  · simp [hb.count_eq]

theorem Balanced.singleton {c : Char} (hl : c ≠ '[') (hr : c ≠ ']') : Balanced [c] := by
  constructor
  · intro u hu
    rcases List.prefix_cons_iff.mp hu with rfl | ⟨v, rfl, hv⟩
    · exact Nat.le_refl _
    · rw [List.prefix_nil.mp hv]
      simp [hr]
  · simp [hl, hr]

/-! ## The nearest open bracket -/

theorem openBrackets_of_balanced {u b : Word} (hb : Balanced b) :
    openBrackets (u ++ '[' :: b) = u.length :: openBrackets u := by
  rw [openBrackets_append]
  exact hb.openFrom_eq _ _

theorem exists_balanced_of_openBrackets_eq_cons {w : Word} {p : Nat} {ps : List Nat}
    (h : openBrackets w = p :: ps) :
    ∃ u b, w = u ++ '[' :: b ∧ Balanced b ∧ u.length = p ∧ openBrackets u = ps := by
  -- A closing bracket joins two balanced parts, so the part before is needed as well.
  induction hn : w.length using Nat.strongRecOn generalizing w p ps with
  | _ n ih =>
    subst hn
    rcases List.eq_nil_or_concat w with rfl | ⟨v, c, rfl⟩
    · cases h
    · rw [List.concat_eq_append] at ih ⊢ h
      rw [openBrackets_concat] at h
      have ihv := @ih v.length (by simp) v
      rcases bracket_cases c with rfl | rfl | ⟨hl, hr⟩
      · obtain ⟨rfl, rfl⟩ := List.cons.inj h
        exact ⟨v, [], rfl, .nil, rfl, rfl⟩
      · obtain ⟨q, hv⟩ : ∃ q, openBrackets v = q :: p :: ps := by
          cases hv : openBrackets v with
          | nil => rw [hv] at h; cases h
          | cons q qs => rw [hv] at h; exact ⟨q, by rw [show qs = p :: ps from h]⟩
        obtain ⟨u, b, rfl, hb, rfl, hu⟩ := ihv hv rfl
        obtain ⟨u', b', rfl, hb', rfl, hu'⟩ := @ih u.length (by simp) u _ _ hu rfl
        exact ⟨u', b' ++ '[' :: (b ++ [']']), by simp, hb'.append hb.enclose, rfl, hu'⟩
      · rw [noteBracket_of_ne hl hr] at h
        obtain ⟨u, b, rfl, hb, rfl, hu⟩ := ihv h rfl
        exact ⟨u, b ++ [c], by simp, hb.append (.singleton hl hr), rfl, hu⟩

/-- A closing bracket closes the nearest one that is still open. -/
theorem closes_iff {w : Word} {i j : Nat} :
    Closes w i j ↔ w[j]? = some ']' ∧ (openBrackets (w.take j)).head? = some i := by
  constructor
  · rintro ⟨hi, hj, hlt, hb⟩
    have hi' : (w.take j)[i]? = some '[' := by rw [List.getElem?_take_of_lt hlt, hi]
    obtain ⟨hlen, hc⟩ := List.getElem?_eq_some_iff.mp hi'
    have he : w.take j = (w.take j).take i ++ '[' :: (w.take j).drop (i + 1) := by
      rw [← hc, ← List.drop_eq_getElem_cons, List.take_append_drop]
    rw [he, openBrackets_of_balanced hb, List.head?_cons,
      List.length_take_of_le (Nat.le_of_lt hlen)]
    exact ⟨hj, rfl⟩
  · rintro ⟨hj, h⟩
    obtain ⟨ps, hps⟩ := List.head?_eq_some_iff.mp h
    obtain ⟨u, b, he, hb, rfl, -⟩ := exists_balanced_of_openBrackets_eq_cons hps
    have hlt : u.length < j := by
      have := congrArg List.length he
      simp at this
      omega
    refine ⟨?_, hj, hlt, ?_⟩
    · rw [← List.getElem?_take_of_lt hlt, he]
      simp
    · rw [he]
      simpa using hb

instance (w : Word) (i j : Nat) : Decidable (Closes w i j) := decidable_of_iff _ closes_iff.symm

example : Closes ['[', 'F', '[', ']', ']', ']'] 0 4 := by decide

/-! ## Brackets that stay open -/

theorem getElem?_concat_eq_some_iff {w : Word} {c d : Char} {i : Nat} :
    (w ++ [c])[i]? = some d ↔ w[i]? = some d ∨ i = w.length ∧ c = d := by
  rcases Nat.lt_trichotomy i w.length with h | rfl | h
  · simp [List.getElem?_append_left h, Nat.ne_of_lt h]
  · simp
  · have hn : (w ++ [c])[i]? = none :=
      List.getElem?_eq_none (by simpa using Nat.succ_le_of_lt h)
    simp [hn, List.getElem?_eq_none (Nat.le_of_lt h), Nat.ne_of_gt h]

theorem openBrackets_pairwise (w : Word) :
    (openBrackets w).Pairwise (· > ·) ∧ ∀ i ∈ openBrackets w, i < w.length := by
  induction w using List.reverseRecOn with
  | nil => exact ⟨.nil, by simp [openBrackets, openFrom]⟩
  | append_singleton w c ih =>
    obtain ⟨hp, hlt⟩ := ih
    have hlt' : ∀ i ∈ openBrackets w, i < (w ++ [c]).length := fun i hi =>
      Nat.lt_of_lt_of_le (hlt i hi) (List.prefix_append w [c]).length_le
    rw [openBrackets_concat]
    rcases bracket_cases c with rfl | rfl | ⟨hl, hr⟩
    · exact ⟨List.pairwise_cons.mpr ⟨hlt, hp⟩, List.forall_mem_cons.mpr ⟨by simp, hlt'⟩⟩
    · exact ⟨hp.tail, fun i hi => hlt' i (List.mem_of_mem_tail hi)⟩
    · rw [noteBracket_of_ne hl hr]
      exact ⟨hp, hlt'⟩

theorem mem_openBrackets_concat {w : Word} {c : Char} {i : Nat} :
    i ∈ openBrackets (w ++ [c]) ↔ c = '[' ∧ i = w.length ∨
      i ∈ openBrackets w ∧ ¬ (c = ']' ∧ (openBrackets w).head? = some i) := by
  rw [openBrackets_concat]
  rcases bracket_cases c with rfl | rfl | ⟨hl, hr⟩
  · simp [noteBracket]
  · cases hw : openBrackets w with
    | nil => simp [noteBracket]
    | cons p ps =>
      have hp : p ∉ ps := fun hp => by
        have := (List.pairwise_cons.mp (hw ▸ (openBrackets_pairwise w).1)).1 p hp
        omega
      simp only [noteBracket, List.tail_cons, List.mem_cons, List.head?_cons, Option.some_inj]
      grind
  · rw [noteBracket_of_ne hl hr]
    simp [hl, hr]

theorem closes_concat_iff {w : Word} {c : Char} {i j : Nat} :
    Closes (w ++ [c]) i j ↔
      Closes w i j ∨ j = w.length ∧ c = ']' ∧ (openBrackets w).head? = some i := by
  rw [closes_iff, closes_iff, getElem?_concat_eq_some_iff]
  constructor
  · rintro ⟨hj | ⟨rfl, rfl⟩, ho⟩
    · have hlt := (List.getElem?_eq_some_iff.mp hj).1
      rw [List.take_append_of_le_length (Nat.le_of_lt hlt)] at ho
      exact .inl ⟨hj, ho⟩
    · rw [List.take_left] at ho
      exact .inr ⟨rfl, rfl, ho⟩
  · rintro (⟨hj, ho⟩ | ⟨rfl, rfl, ho⟩)
    · have hlt := (List.getElem?_eq_some_iff.mp hj).1
      rw [List.take_append_of_le_length (Nat.le_of_lt hlt)]
      exact ⟨.inl hj, ho⟩
    · rw [List.take_left]
      exact ⟨.inr ⟨rfl, rfl⟩, ho⟩

theorem mem_openBrackets_iff {w : Word} {i : Nat} :
    i ∈ openBrackets w ↔ w[i]? = some '[' ∧ ∀ j, ¬ Closes w i j := by
  induction w using List.reverseRecOn with
  | nil => simp [openBrackets, openFrom]
  | append_singleton w c ih =>
    rw [mem_openBrackets_concat, ih]
    have hlen : ∀ j, ¬ Closes w w.length j := fun j hj => by simpa using hj.opening
    simp only [getElem?_concat_eq_some_iff, closes_concat_iff]
    constructor
    · rintro (⟨rfl, rfl⟩ | ⟨⟨ho, hu⟩, hc⟩)
      · refine ⟨.inr ⟨rfl, rfl⟩, ?_⟩
        rintro j (hj | ⟨-, hc, -⟩)
        · exact hlen j hj
        · cases hc
      · refine ⟨.inl ho, ?_⟩
        rintro j (hj | ⟨-, hj⟩)
        · exact hu j hj
        · exact hc hj
    · rintro ⟨ho | ⟨rfl, rfl⟩, hu⟩
      · exact .inr ⟨⟨ho, fun j hj => hu j (.inl hj)⟩, fun hc => hu w.length (.inr ⟨rfl, hc⟩)⟩
      · exact .inl ⟨rfl, rfl⟩

end Arbor.Turtle
