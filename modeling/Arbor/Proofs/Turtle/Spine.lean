import Arbor.Proofs.Turtle.Measures
import Arbor.Proofs.Turtle.Restore
import Mathlib.Logic.Function.Iterate

/-! # The spine of a word

The spine is what is left of a word without its closed branches. The length, the radius and the
angle of a turtle are those that it gets from the spine alone.
-/

namespace Arbor.Turtle

def changesMeasures (c : Char) : Bool := c == 'F' || c == '+' || c == '-'

/-- The position lies on a closed branch, from its opening to its closing bracket. -/
def OnBranch (w : Word) (k : Nat) : Prop := ∃ i j, Closes w i j ∧ i ≤ k ∧ k ≤ j

theorem Closes.lt_length {w : Word} {i j : Nat} (h : Closes w i j) : j < w.length :=
  (List.getElem?_eq_some_iff.mp h.closing).1

instance (w : Word) (k : Nat) : Decidable (OnBranch w k) :=
  decidable_of_iff (∃ j, j < w.length ∧ ∃ i, i < j ∧ Closes w i j ∧ i ≤ k ∧ k ≤ j) <| by
    constructor
    · rintro ⟨j, -, i, -, h⟩
      exact ⟨i, j, h⟩
    · rintro ⟨i, j, h, hk⟩
      exact ⟨j, h.lt_length, i, h.lt, h, hk⟩

def onSpine (w : Word) (p : Char × Nat) : Bool :=
  changesMeasures p.1 && !decide (OnBranch w p.2)

/-- The symbols beside the closed branches that change the measures. -/
def spine (w : Word) : Word := (w.zipIdx.filter (onSpine w)).map Prod.fst

example : spine ['F', '[', '+', 'F', ']', ']', '-', 'X', '[', 'F'] = ['F', '-', 'F'] := by decide

/-! ## Branches of a longer word -/

theorem onBranch_concat_iff {w : Word} {c : Char} {k : Nat} :
    OnBranch (w ++ [c]) k ↔ OnBranch w k ∨
      c = ']' ∧ ∃ i, (openBrackets w).head? = some i ∧ i ≤ k ∧ k ≤ w.length := by
  simp only [OnBranch, closes_concat_iff]
  constructor
  · rintro ⟨i, j, h | ⟨rfl, hc, ho⟩, hk⟩
    · exact .inl ⟨i, j, h, hk⟩
    · exact .inr ⟨hc, i, ho, hk⟩
  · rintro (⟨i, j, h, hk⟩ | ⟨hc, i, ho, hk⟩)
    · exact ⟨i, j, .inl h, hk⟩
    · exact ⟨i, w.length, .inr ⟨rfl, hc, ho⟩, hk⟩

theorem not_onBranch_length (w : Word) : ¬ OnBranch w w.length := by
  rintro ⟨i, j, h, -, hj⟩
  exact absurd h.lt_length (Nat.not_lt.mpr hj)

theorem closes_take_iff {w : Word} {i j n : Nat} (hj : j < n) :
    Closes (w.take n) i j ↔ Closes w i j := by
  rw [closes_iff, closes_iff, List.getElem?_take_of_lt hj, List.take_take,
    Nat.min_eq_left (Nat.le_of_lt hj)]

theorem closes_of_take {w : Word} {i j n : Nat} (h : Closes (w.take n) i j) : Closes w i j :=
  (closes_take_iff (Nat.lt_of_lt_of_le h.lt_length (List.length_take_le ..))).mp h

theorem lt_of_closes {w : Word} {i j p : Nat} (hp : p ∈ openBrackets w) (h : Closes w i j)
    (hi : i < p) : j < p := by
  obtain ⟨ho, hn⟩ := mem_openBrackets_iff.mp hp
  by_contra hj
  have hpj : p < j := by
    refine Nat.lt_of_le_of_ne (Nat.not_lt.mp hj) ?_
    rintro rfl
    rw [h.closing] at ho
    cases ho
  -- The open bracket is also open where the branch ends, and nearer than the branch's own.
  have hmem : p ∈ openBrackets (w.take j) := by
    refine mem_openBrackets_iff.mpr ⟨by rw [List.getElem?_take_of_lt hpj, ho], fun k hk => ?_⟩
    exact hn k (closes_of_take hk)
  obtain ⟨rest, hrest⟩ := List.head?_eq_some_iff.mp (closes_iff.mp h).2
  have hsorted := (openBrackets_pairwise (w.take j)).1
  rw [hrest, List.pairwise_cons] at hsorted
  rw [hrest, List.mem_cons] at hmem
  rcases hmem with rfl | hmem
  · exact Nat.lt_irrefl _ hi
  · exact Nat.lt_asymm hi (hsorted.1 p hmem)

theorem onBranch_take_iff {w : Word} {p k : Nat} (hp : p ∈ openBrackets w) (hk : k < p) :
    OnBranch (w.take p) k ↔ OnBranch w k := by
  constructor
  · rintro ⟨i, j, h, hik⟩
    exact ⟨i, j, closes_of_take h, hik⟩
  · rintro ⟨i, j, h, hi, hj⟩
    exact ⟨i, j, (closes_take_iff (lt_of_closes hp h (Nat.lt_of_le_of_lt hi hk))).mpr h, hi, hj⟩

theorem onBranch_closing_iff {w : Word} {p k : Nat} {rest : List Nat}
    (h : openBrackets w = p :: rest) (hk : k ≤ w.length) :
    OnBranch (w ++ [']']) k ↔ p ≤ k ∨ OnBranch (w.take p) k := by
  have hp : p ∈ openBrackets w := h ▸ List.mem_cons_self
  rw [onBranch_concat_iff, h, List.head?_cons]
  rcases Nat.lt_or_ge k p with hkp | hkp
  · rw [onBranch_take_iff hp hkp]
    simp [Nat.not_le.mpr hkp]
  · exact iff_of_true (.inr ⟨rfl, p, rfl, hkp, hk⟩) (.inl hkp)

/-! ## The spine of a longer word -/

theorem spine_append {u v : Word} (h : ∀ k < u.length, OnBranch (u ++ v) k ↔ OnBranch u k) :
    spine (u ++ v) =
      spine u ++ ((v.zipIdx u.length).filter (onSpine (u ++ v))).map Prod.fst := by
  have hu : u.zipIdx.filter (onSpine (u ++ v)) = u.zipIdx.filter (onSpine u) := by
    apply List.filter_congr
    rintro ⟨d, k⟩ hk
    simp only [onSpine, h k (List.snd_lt_of_mem_zipIdx hk)]
  rw [spine, List.zipIdx_append, List.filter_append, List.map_append, hu, Nat.zero_add, spine]

theorem spine_concat {w : Word} {c : Char} (h : c = ']' → openBrackets w = []) :
    spine (w ++ [c]) = spine w ++ if changesMeasures c then [c] else [] := by
  have hb (k : Nat) : OnBranch (w ++ [c]) k ↔ OnBranch w k := by
    rw [onBranch_concat_iff]
    refine or_iff_left ?_
    rintro ⟨hc, i, hi, -⟩
    rw [h hc] at hi
    cases hi
  rw [spine_append fun k _ => hb k]
  have hlast : ¬ OnBranch (w ++ [c]) w.length := (hb _).not.mpr (not_onBranch_length w)
  cases hc : changesMeasures c <;> simp [onSpine, hc, hlast]

/-- A bracket that closes a branch takes it off the spine. -/
theorem spine_concat_closing {w : Word} {p : Nat} {rest : List Nat}
    (h : openBrackets w = p :: rest) : spine (w ++ [']']) = spine (w.take p) := by
  have hp : p < w.length := (openBrackets_pairwise w).2 p (h ▸ List.mem_cons_self)
  have hlen : (w.take p).length = p := List.length_take_of_le (Nat.le_of_lt hp)
  have hsplit : w ++ [']'] = w.take p ++ (w.drop p ++ [']']) := by simp [← List.append_assoc]
  have hfront : ∀ k < (w.take p).length,
      OnBranch (w.take p ++ (w.drop p ++ [']'])) k ↔ OnBranch (w.take p) k := by
    intro k hk
    rw [hlen] at hk
    rw [← hsplit, onBranch_closing_iff h (Nat.le_of_lt (Nat.lt_trans hk hp))]
    exact or_iff_right (Nat.not_le.mpr hk)
  have hback : ((w.drop p ++ [']']).zipIdx p).filter (onSpine (w ++ [']'])) = [] := by
    rw [List.filter_eq_nil_iff]
    rintro ⟨d, k⟩ hk
    have hkp := List.le_snd_of_mem_zipIdx hk
    have hkw : k ≤ w.length := by
      have := List.snd_lt_add_of_mem_zipIdx hk
      simp at this
      omega
    simp [onSpine, (onBranch_closing_iff h hkw).mpr (.inl hkp)]
  rw [hsplit, spine_append hfront, hlen, ← hsplit, hback, List.map_nil, List.append_nil]

theorem spine_eq_self {w : Word} (h : ∀ c ∈ w, changesMeasures c = true) : spine w = w := by
  induction w using List.reverseRecOn with
  | nil => rfl
  | append_singleton w c ih =>
    rw [List.forall_mem_append] at h
    have hc := h.2 c List.mem_cons_self
    have hr : c = ']' → openBrackets w = [] := by
      rintro rfl
      cases hc
    rw [spine_concat hr, ih h.1, if_pos hc]

theorem changesMeasures_iff {c : Char} :
    changesMeasures c = true ↔ c = 'F' ∨ c = '+' ∨ c = '-' := by
  simp [changesMeasures, or_assoc]

theorem changesMeasures_of_mem_spine {w : Word} {c : Char} (h : c ∈ spine w) :
    changesMeasures c = true := by
  obtain ⟨⟨_, k⟩, hk, rfl⟩ := List.mem_map.mp h
  exact (Bool.and_eq_true_iff.mp (List.mem_filter.mp hk).2).1

section Walk

variable {α ρ ρ' : Type} [Geometric α] [RandomSource ρ α] [RandomSource ρ' α]
variable {params : Params α}

theorem current_step_of_not_changesMeasures {w : Walker α ρ} {c : Char}
    (hc : changesMeasures c = false) (h : c = ']' → w.stack.saved = []) :
    (step params w c).2.stack.current = w.stack.current := by
  cases hs : Command.ofSymbol? c with
  | none => simp [step, hs]
  | some command =>
    obtain rfl := Command.ofSymbol?_eq_some_iff.mp hs
    cases command with
    | advance | turnPositive | turnNegative => exact absurd hc (by decide)
    | push => rfl
    | pop => rw [Command.symbol, step_pop_of_saved_eq_nil (h rfl)]

/-- What holds at the start and is kept by advances and turns holds of a turtle and its spine. -/
theorem current_after_spine {P : State α → Word → Prop} {start : Walker α ρ}
    (hs : start.stack.saved = []) (hstart : P start.stack.current [])
    (hstep : ∀ (w : Walker α ρ) (c : Char) (word : Word), changesMeasures c = true →
      P w.stack.current word → P (step params w c).2.stack.current (word ++ [c])) (word : Word) :
    P (start.after params word).stack.current (spine word) := by
  -- A closing bracket goes back to a shorter word than the one before it.
  induction hn : word.length using Nat.strongRecOn generalizing word with
  | _ n ih =>
    subst hn
    rcases List.eq_nil_or_concat word with rfl | ⟨word, c, rfl⟩
    · exact hstart
    · rw [List.concat_eq_append] at ih ⊢
      rw [Walker.after_append, Walker.after_singleton]
      have hsaved := saved_after params hs word
      by_cases hc : c = ']' ∧ openBrackets word ≠ []
      · obtain ⟨rfl, ho⟩ := hc
        obtain ⟨p, rest, ho⟩ := List.exists_cons_of_ne_nil ho
        rw [ho, List.map_cons] at hsaved
        rw [step_pop_of_saved_eq_cons hsaved, spine_concat_closing ho]
        have hlen : (word.take p).length < (word ++ [']']).length := by
          rw [List.length_append]
          exact Nat.lt_succ_of_le (List.length_take_le' ..)
        exact ih _ hlen _ rfl
      · have ho : c = ']' → openBrackets word = [] := fun h => by_contra fun ho => hc ⟨h, ho⟩
        have hword := ih _ (by simp) word rfl
        rw [spine_concat ho]
        cases hm : changesMeasures c with
        | true => exact hstep _ _ _ hm hword
        | false =>
          have hempty (h : c = ']') : (start.after params word).stack.saved = [] := by
            rw [hsaved, ho h, List.map_nil]
          rw [current_step_of_not_changesMeasures hm hempty]
          simpa using hword

/-! ## Measures along the spine -/

def turned (offset angle : α) : Char → α
  | '+' => angle + offset
  | '-' => angle + -offset
  | _ => angle

/-- The measures that a turtle gets from the advances and turns of a word. -/
def State.measuresAlong (params : Params α) (s : State α) (word : Word) : α × α × α :=
  ((· * params.lengthDecay)^[word.count 'F'] s.length,
    (· * params.radiusDecay)^[word.count 'F'] s.radius,
    word.foldl (turned params.angleOffset) s.angle)

theorem measuresAlong_concat (params : Params α) (s : State α) (word : Word) (c : Char) :
    s.measuresAlong params (word ++ [c]) =
      let (length, radius, angle) := s.measuresAlong params word
      (if c = 'F' then length * params.lengthDecay else length,
        if c = 'F' then radius * params.radiusDecay else radius,
        turned params.angleOffset angle c) := by
  by_cases hc : c = 'F'
  · simp [State.measuresAlong, hc, Function.iterate_succ_apply']
  · simp [State.measuresAlong, hc]

theorem measures_step_along {w : Walker α ρ} {c : Char} (hc : changesMeasures c = true)
    {s : State α} {word : Word} (hm : w.stack.current.measures = s.measuresAlong params word) :
    (step params w c).2.stack.current.measures = s.measuresAlong params (word ++ [c]) := by
  rw [measuresAlong_concat, ← hm]
  obtain rfl | rfl | rfl := changesMeasures_iff.mp hc <;> rfl

theorem measures_after_spine (params : Params α) {start : Walker α ρ}
    (hs : start.stack.saved = []) (word : Word) :
    (start.after params word).stack.current.measures =
      start.stack.current.measuresAlong params (spine word) :=
  current_after_spine (P := fun s u => s.measures = start.stack.current.measuresAlong params u)
    hs rfl (fun _ _ _ hc hm => measures_step_along hc hm) word

/-- A walk ends with the length, the radius and the angle that a walk of the spine ends with,
whatever the two draw. Those are the measures at the start, with the factors applied once for each
advance and the angle changed once for each turn of the spine. -/
theorem walk_measures_spine (params : Params α) (initial : State α) (source : ρ) (source' : ρ')
    (word : Word) :
    let walked := walk params Array.push word (⟨.ofState initial, source⟩ : Walker α ρ) #[]
    let straight :=
      walk params Array.push (spine word) (⟨.ofState initial, source'⟩ : Walker α ρ') #[]
    walked.1.stack.current.measures = straight.1.stack.current.measures ∧
      walked.1.stack.current.measures =
        ((· * params.lengthDecay)^[(spine word).count 'F'] initial.length,
          (· * params.radiusDecay)^[(spine word).count 'F'] initial.radius,
          (spine word).foldl (turned params.angleOffset) initial.angle) := by
  intro walked straight
  have hspine : spine (spine word) = spine word :=
    spine_eq_self fun c hc => changesMeasures_of_mem_spine hc
  let start : Walker α ρ := ⟨.ofState initial, source⟩
  let start' : Walker α ρ' := ⟨.ofState initial, source'⟩
  have hwalked := measures_after_spine params (show start.stack.saved = [] from rfl) word
  have hstraight :=
    measures_after_spine params (show start'.stack.saved = [] from rfl) (spine word)
  rw [hspine] at hstraight
  simp only [walked, straight, walk_push]
  exact ⟨hwalked.trans hstraight.symm, hwalked⟩

end Walk

end Arbor.Turtle
