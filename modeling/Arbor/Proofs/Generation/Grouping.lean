import Arbor.Grammar.Catalog
import Arbor.Proofs.Generation.AllOrNothing
import Arbor.Proofs.Grammar.Index

/-! # Rules of different symbols commute

A growth looks its rules up by symbol. So two grammars whose rules agree symbol by symbol
grow, walk and fail alike, however the rules of different symbols are interleaved.
-/

namespace Arbor

def Alternatives.ofList? : List Rule → Option Alternatives
  | [] => none
  | r :: rest => some ⟨r, rest⟩

namespace RuleIndex

variable {index index' : RuleIndex}

theorem candidates_eq_ofList (index : RuleIndex) (c : Char) :
    index.candidates? c = Alternatives.ofList? (index.rulesFor c) := by
  unfold rulesFor
  cases index.candidates? c <;> rfl

theorem candidates_ofRules_eq_iff {rules rules' : List Rule} :
    (ofRules rules).candidates? = (ofRules rules').candidates? ↔
      ∀ c, rules.filter (·.input = c) = rules'.filter (·.input = c) := by
  constructor
  · intro h c
    rw [← rulesFor_ofRules, ← rulesFor_ofRules, rulesFor, rulesFor, h]
  · intro h
    funext c
    rw [candidates_eq_ofList, candidates_eq_ofList, rulesFor_ofRules, rulesFor_ofRules, h c]

section Congruence

variable {ρ : Type} [RandomSource ρ Float]

theorem rewrite_congr (h : index.candidates? = index'.candidates?) (c : Char) (source : ρ) :
    index.rewrite c source = index'.rewrite c source := by
  rw [rewrite, rewrite, h]

theorem rewriteWithin_congr (h : index.candidates? = index'.candidates?) (budget : Nat)
    (word written : Word) (added : Nat) (source : ρ) :
    index.rewriteWithin budget word written added source =
      index'.rewriteWithin budget word written added source := by
  induction word generalizing written added source with
  | nil => rfl
  | cons c rest ih => simp only [rewriteWithin, rewrite_congr h, ih]

theorem rewriteOnce_congr (h : index.candidates? = index'.candidates?) (limits : Limits)
    (word : Word) (source : ρ) :
    index.rewriteOnce limits word source = index'.rewriteOnce limits word source := by
  rw [rewriteOnce, rewriteOnce, rewriteWithin_congr h]

theorem passes_congr (h : index.candidates? = index'.candidates?) (limits : Limits)
    (left iteration : Nat) (word : Word) (count : Nat) (sizes : List Nat) (source : ρ) :
    index.passes limits left iteration word count sizes source =
      index'.passes limits left iteration word count sizes source := by
  induction left generalizing iteration word count sizes source with
  | zero => rfl
  | succ left ih => simp only [passes, rewriteWithin_congr h, ih]

theorem grow_congr (h : index.candidates? = index'.candidates?) (limits : Limits)
    (start : Word) (n : Nat) (source : ρ) :
    index.grow limits start n source = index'.grow limits start n source := by
  simp only [grow, passes_congr h]

end Congruence

end RuleIndex

namespace Generation

open Turtle

def leftover (g : Grammar) (p : Params) : Except GenerationError Xorshift :=
  (departure g p).map fun (start, word) => (start.after p.turtle word).source

variable {g g' : Grammar}

theorem grow_congr (hs : g.start = g'.start) (h : g.index.candidates? = g'.index.candidates?)
    (p : Params) : grow g p = grow g' p := by
  simp only [grow, hs, RuleIndex.grow_congr h]

/-- Only the rules of each symbol and their order matter. Two grammars with the same start
word that agree symbol by symbol rewrite, grow, walk and fail alike, with any limits,
parameters and sources, and leave the same source. -/
theorem grouping_decides (hs : g.start = g'.start)
    (hr : ∀ c, g.rules.filter (·.input = c) = g'.rules.filter (·.input = c)) :
    (∀ (ρ : Type) [RandomSource ρ Float] (limits : Limits) (word : Word) (source : ρ),
      g.index.rewriteOnce limits word source = g'.index.rewriteOnce limits word source ∧
      ∀ n, g.index.grow limits word n source = g'.index.grow limits word n source) ∧
    ∀ p, grow g p = grow g' p ∧ leftover g p = leftover g' p ∧
      (∀ (σ : Type) (emit : σ → Event Float → σ) (sink : σ),
        stream g p emit sink = stream g' p emit sink) ∧
      run g p = run g' p ∧ events g p = events g' p ∧ report g p = report g' p := by
  have h : g.index.candidates? = g'.index.candidates? := RuleIndex.candidates_ofRules_eq_iff.mpr hr
  constructor
  · intro ρ _ limits word source
    exact ⟨RuleIndex.rewriteOnce_congr h limits word source,
      fun n => RuleIndex.grow_congr h limits word n source⟩
  · intro p
    have hg : grow g p = grow g' p := grow_congr hs h p
    have hd : departure g p = departure g' p := by rw [departure, departure, hg]
    have hst (σ : Type) (emit : σ → Event Float → σ) (sink : σ) :
        stream g p emit sink = stream g' p emit sink := by rw [stream, stream, hg]
    refine ⟨hg, ?_, hst, ?_, ?_, ?_⟩
    · rw [leftover, leftover, hd]
    · rw [run, run, hst]
    · rw [events, events, hst]
    · rw [report, report, hst]

def turnedMeadow : Grammar where
  start := Grammar.meadow.start
  rules := Grammar.meadowRules.drop 2 ++ Grammar.meadowRules.take 2
  start_ne_nil := Grammar.meadow.start_ne_nil
  rules_ne_nil := by simp [Grammar.meadowRules]
  weighs := fun r hr =>
    Grammar.weighs_meadowRules r
      ((List.mem_append.mp hr).elim List.mem_of_mem_drop List.mem_of_mem_take)

theorem filter_turnedMeadow (c : Char) :
    turnedMeadow.rules.filter (·.input = c) = Grammar.meadow.rules.filter (·.input = c) := by
  by_cases h : 'X' = c
  · subst h
    simp [turnedMeadow, Grammar.meadow, Grammar.meadowRules]
  · simp [turnedMeadow, Grammar.meadow, Grammar.meadowRules, List.filter_cons, h]

theorem grouping_decides_meadow :
    turnedMeadow.start = Grammar.meadow.start ∧
    (∀ c, turnedMeadow.rules.filter (·.input = c) =
      Grammar.meadow.rules.filter (·.input = c)) ∧
    run turnedMeadow Params.standard = run .meadow Params.standard := by
  have hs : turnedMeadow.start = Grammar.meadow.start := rfl
  obtain ⟨_, hp⟩ := grouping_decides hs filter_turnedMeadow
  obtain ⟨_, _, _, hr, _⟩ := hp Params.standard
  exact ⟨hs, filter_turnedMeadow, hr⟩

end Generation

end Arbor
