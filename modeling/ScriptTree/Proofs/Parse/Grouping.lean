import ScriptTree.Proofs.Parse.Soundness
import ScriptTree.Proofs.Parse.Spells.Expression
import ScriptTree.Proofs.Token.Rescan

/-!
How the operands of an expression are grouped: what stands beside an operator binds more tightly than the
operator does, or as tightly on its left. There is one such grouping, an expression is built from it, and
the two stacks that it is built on have the operands that each operator needs.
-/

namespace ScriptTree

open Rule Grammar

namespace Operator

-- The level of an operator that joins operands. Others have none.
def grade (operator : Operator) : Nat :=
  operator.level.getD 0

theorem any_level {operator : Operator} (h : operator.level.isSome) (k : Nat) :
    operator.level.any (k ≤ ·) = decide (k ≤ operator.grade) := by
  have ⟨level, hlevel⟩ := Option.isSome_iff_exists.mp h
  simp [grade, hlevel]

end Operator

-- A scanned token that joins two operands is marked as its operator is.
theorem Token.IsScanned.marks_of_joiner? {t : Token} {joinsIn : Bool} {operator : Operator} {level : Nat}
    (h : t.IsScanned) (ht : joiner? joinsIn t = some (operator, level)) : t.marks = .ofOperator operator := by
  have hk := (of_joiner? ht).2
  rw [IsScanned] at h
  generalize t.value.toList = text at h
  generalize t.kind = kind at h hk
  generalize t.marks = marks at h
  cases h with
  | operator op => simp_all
  | @word c text _ _ =>
    revert hk
    fun_cases Scanner.word (c :: text) <;> simp_all
  | trivia h => cases kind <;> simp_all [TokenKind.isTrivia]
  | _ => simp at hk

-- The marks of the token give an operator between operands the level that it has by itself.
def Token.IsGraded (t : Token) : Prop :=
  ∀ joinsIn operator level, joiner? joinsIn t = some (operator, level) → operator.level = some level

theorem Token.IsScanned.isGraded {t : Token} (h : t.IsScanned) : t.IsGraded := by
  intro joinsIn operator level ht
  have hlevel := (of_joiner? ht).1.2.2
  rwa [h.marks_of_joiner? ht] at hlevel

theorem Token.isGraded_of_mem {source : String} {t : Token} (h : t ∈ ofSource source true) : t.IsGraded := by
  by_cases hk : t.kind = .endOfInput
  · intro joinsIn operator level ht
    simp [joiner?, hk] at ht
  · exact (isScanned_of_mem h hk).isGraded

/-! ### Groupings -/

-- Operands that are joined in pairs by operators.
inductive Grouping where
  | operand (n : Node)
  | join (left : Grouping) (operator : Operator) (right : Grouping)

namespace Grouping

def toNode : Grouping → Node
  | operand n => n
  | join left operator right => OperandRun.join left.toNode operator right.toNode

-- The operand that stands first, from left to right.
def first : Grouping → Node
  | operand n => n
  | join left _ _ => left.first

-- The operators from left to right, each with the operand behind it.
def joins : Grouping → List (Operator × Node)
  | operand _ => []
  | join left operator right => left.joins ++ (operator, right.first) :: right.joins

-- The operator that joins the largest pair.
def top? : Grouping → Option Operator
  | operand _ => none
  | join _ operator _ => some operator

-- The left part of every pair binds at least as tightly as its operator, and the right part more tightly.
inductive IsLeveled : Grouping → Prop
  | operand {n} : IsLeveled (operand n)
  | join {left operator right} :
    left.IsLeveled → (∀ op ∈ left.top?, operator.grade ≤ op.grade) →
    right.IsLeveled → (∀ op ∈ right.top?, operator.grade < op.grade) →
    IsLeveled (join left operator right)

variable {t t' : Grouping}

-- No operator is looser than the one at the top.
theorem IsLeveled.le_of_mem_joins (h : t.IsLeveled) {k : Nat} (hk : ∀ op ∈ t.top?, k ≤ op.grade) :
    ∀ j ∈ t.joins, k ≤ j.1.grade := by
  induction h generalizing k
  case operand => simp [joins]
  case join left operator right _ hleft _ hright ihl ihr =>
    have hk : k ≤ operator.grade := hk operator rfl
    simp only [joins, List.mem_append, List.mem_cons]
    rintro j (hj | rfl | hj)
    · exact Nat.le_trans hk (ihl hleft j hj)
    · exact hk
    · exact Nat.le_trans (Nat.le_succ_of_le hk) (ihr hright j hj)

-- A list has one place where nothing before is less and everything behind is greater.
theorem split_unique {j j' : Operator × Node} {js ks js' ks' : List (Operator × Node)}
    (h : js ++ j :: ks = js' ++ j' :: ks')
    (hjs : ∀ x ∈ js, j.1.grade ≤ x.1.grade) (hks : ∀ x ∈ ks, j.1.grade < x.1.grade)
    (hjs' : ∀ x ∈ js', j'.1.grade ≤ x.1.grade) (hks' : ∀ x ∈ ks', j'.1.grade < x.1.grade) :
    js = js' ∧ j = j' ∧ ks = ks' := by
  rcases List.append_eq_append_iff.mp h with ⟨ds, hd, he⟩ | ⟨ds, hd, he⟩ <;> cases ds
  case inl.nil | inr.nil => simp_all
  case inl.cons d ds =>
    obtain ⟨rfl, rfl⟩ := List.cons.inj he
    exact absurd (hks j' (by simp)) (Nat.not_lt.mpr (hjs' j (by simp [hd])))
  case inr.cons d ds =>
    obtain ⟨rfl, rfl⟩ := List.cons.inj he
    exact absurd (hks' j (by simp)) (Nat.not_lt.mpr (hjs j' (by simp [hd])))

theorem IsLeveled.unique (h : t.IsLeveled) (h' : t'.IsLeveled) (hfirst : t.first = t'.first)
    (hjoins : t.joins = t'.joins) : t = t' := by
  induction h generalizing t'
  case operand =>
    cases h'
    case operand => exact congrArg Grouping.operand hfirst
    case join => simp [joins] at hjoins
  case join left operator right hl hleft hr hright ihl ihr =>
    cases h'
    case operand => simp [joins] at hjoins
    case join left' operator' right' hl' hleft' hr' hright' =>
      have ⟨hls, hj, hrs⟩ := split_unique hjoins (hl.le_of_mem_joins hleft) (hr.le_of_mem_joins hright)
        (hl'.le_of_mem_joins hleft') (hr'.le_of_mem_joins hright')
      obtain ⟨rfl, hf⟩ := Prod.mk.inj hj
      rw [ihl hl' hfirst hls, ihr hr' hf hrs]

-- These operands and operators, from left to right, are grouped by the levels of the operators.
structure Groups (t : Grouping) (first : Node) (js : List (Operator × Node)) : Prop where
  first   : t.first = first
  joins   : t.joins = js
  leveled : t.IsLeveled

theorem Groups.unique {first : Node} {js : List (Operator × Node)} (h : t.Groups first js)
    (h' : t'.Groups first js) : t' = t :=
  h'.leveled.unique h.leveled (h'.first.trans h.first.symm) (h'.joins.trans h.joins.symm)

-- The two have the same operands and operators, but that the second has more behind.
def Extends (js : List (Operator × Node)) (t t' : Grouping) : Prop :=
  t'.first = t.first ∧ t'.joins = t.joins ++ js

end Grouping

/-! ### Runs -/

namespace Grammar.OperandRun

open Grouping

variable {pending : List (Grouping × Operator)} {t t' : Grouping} {k : Nat}

-- What is pending and the last operand, as one grouping.
def whole : (pending : List (Grouping × Operator)) → Grouping → Grouping
  | [], t => t
  | (left, operator) :: pending, t => whole pending (.join left operator t)

theorem whole_extends {js : List (Operator × Node)} (h : Extends js t t') :
    Extends js (whole pending t) (whole pending t') := by
  induction pending generalizing t t'
  case nil => exact h
  case cons p pending ih => exact ih ⟨rfl, by simp [joins, h.1, h.2]⟩

-- A run of groups. Of the operators that wait, those further in bind more tightly, and what waits for its
-- right part is the left part of its operator.
structure IsStacked (pending : List (Grouping × Operator)) (t : Grouping) : Prop where
  levels  : ∀ p ∈ pending, p.2.level.isSome
  sorted  : pending.Pairwise fun p q => q.2.grade < p.2.grade
  lefts   : ∀ p ∈ pending, p.1.IsLeveled ∧ ∀ op ∈ p.1.top?, p.2.grade ≤ op.grade
  last    : t.IsLeveled
  tighter : ∀ op ∈ t.top?, ∀ p ∈ pending, p.2.grade < op.grade

def ofGroups (pending : List (Grouping × Operator)) (t : Grouping) : OperandRun :=
  ⟨pending.map fun p => (p.1.toNode, p.2), t.toNode⟩

theorem IsStacked.operand (n : Node) : IsStacked [] (.operand n) :=
  ⟨by simp, .nil, by simp, .operand, by simp⟩

-- Where all operators from a level on are folded, those that go on waiting are below it.
theorem IsStacked.fold (h : IsStacked pending t) (takes : Operator → Bool)
    (ht : ∀ p ∈ pending, takes p.2 = decide (k ≤ p.2.grade)) (hk : ∀ op ∈ t.top?, k ≤ op.grade) :
    ∃ pending' t', OperandRun.fold takes (ofGroups pending t).pending (ofGroups pending t).last =
        ofGroups pending' t' ∧
      IsStacked pending' t' ∧ whole pending' t' = whole pending t ∧
      (∀ p ∈ pending', p.2.grade < k) ∧ ∀ op ∈ t'.top?, k ≤ op.grade := by
  induction pending generalizing t
  case nil => exact ⟨[], t, rfl, h, rfl, by simp, hk⟩
  case cons p pending ih =>
    obtain ⟨left, operator⟩ := p
    obtain ⟨hlevel, hlevels⟩ := List.forall_mem_cons.mp h.levels
    obtain ⟨hsorted, hsorted'⟩ := List.pairwise_cons.mp h.sorted
    obtain ⟨⟨hleft, htop⟩, hpending⟩ := List.forall_mem_cons.mp h.lefts
    obtain ⟨htakes, ht'⟩ := List.forall_mem_cons.mp ht
    by_cases hop : k ≤ operator.grade
    case pos =>
      have hjoin : IsStacked pending (.join left operator t) := by
        refine ⟨hlevels, hsorted', hpending, ?_, ?_⟩
        · exact .join hleft htop h.last fun op hop => h.tighter op hop _ (.head _)
        · rintro _ ⟨⟩
          exact hsorted
      obtain ⟨pending', t', hfold, h'⟩ := ih hjoin ht' (by rintro _ ⟨⟩; exact hop)
      refine ⟨pending', t', ?_, h'⟩
      rw [← hfold]
      simp [ofGroups, OperandRun.fold, htakes, hop, Grouping.toNode]
    case neg =>
      refine ⟨(left, operator) :: pending, t, ?_, h, rfl, ?_, hk⟩
      · simp [ofGroups, OperandRun.fold, htakes, hop]
      · rintro p (_ | ⟨_, hp⟩)
        · exact Nat.not_le.mp hop
        · exact Nat.lt_trans (hsorted p hp) (Nat.not_le.mp hop)

-- One more operator and its right operand.
def take (run : OperandRun) (j : Operator × Node) : OperandRun :=
  run.push j.1 j.1.grade j.2

theorem IsStacked.take {n : Node} (h : IsStacked pending (.operand n)) {j : Operator × Node}
    (hj : j.1.level.isSome) :
    ∃ pending', (ofGroups pending (.operand n)).take j = ofGroups pending' (.operand j.2) ∧
      IsStacked pending' (.operand j.2) ∧
      Extends [j] (whole pending (.operand n)) (whole pending' (.operand j.2)) := by
  obtain ⟨operator, right⟩ := j
  obtain ⟨pending', t, hfold, h', hwhole, hbelow, habove⟩ := h.fold (k := operator.grade)
    (fun op => op.level.any (operator.grade ≤ ·)) (fun p hp => Operator.any_level (h.levels p hp) _) (by simp [top?])
  refine ⟨(t, operator) :: pending', ?_, ⟨?_, ?_, ?_, .operand, by simp [top?]⟩, ?_⟩
  · simp only [OperandRun.take, push, hfold]
    rfl
  · exact List.forall_mem_cons.mpr ⟨hj, h'.levels⟩
  · exact List.pairwise_cons.mpr ⟨hbelow, h'.sorted⟩
  · exact List.forall_mem_cons.mpr ⟨⟨h'.last, habove⟩, h'.lefts⟩
  · rw [← hwhole]
    exact whole_extends (t := t) ⟨rfl, rfl⟩

-- The run of a first operand and of what is joined to it.
def ofJoins (first : Node) (js : List (Operator × Node)) : OperandRun :=
  js.foldl take ⟨[], first⟩

theorem exists_isStacked (first : Node) {js : List (Operator × Node)} (hjs : ∀ j ∈ js, j.1.level.isSome) :
    ∃ pending last, ofJoins first js = ofGroups pending (.operand last) ∧
      IsStacked pending (.operand last) ∧
      Extends js (.operand first) (whole pending (.operand last)) := by
  induction js using List.reverseRecOn
  case nil => exact ⟨[], first, rfl, .operand first, rfl, rfl⟩
  case append_singleton js j ih =>
    obtain ⟨hjs, hj⟩ := List.forall_mem_append.mp hjs
    obtain ⟨pending, last, hrun, h, hfirst, hjoins⟩ := ih hjs
    obtain ⟨pending', hrun', h', hfirst', hjoins'⟩ := h.take (hj j (by simp))
    refine ⟨pending', j.2, ?_, h', hfirst'.trans hfirst, by simp [hjoins', hjoins]⟩
    rw [ofJoins, List.foldl_append]
    exact (congrArg (take · j) hrun).trans hrun'

-- A run becomes the one grouping of its operands.
theorem exists_grouping (first : Node) {js : List (Operator × Node)} (hjs : ∀ j ∈ js, j.1.level.isSome) :
    ∃ t : Grouping, t.Groups first js ∧ (ofJoins first js).toNode = t.toNode := by
  obtain ⟨pending, last, hrun, h, hfirst, hjoins⟩ := exists_isStacked first hjs
  obtain ⟨pending', t, hfold, h', hwhole, hbelow, -⟩ := h.fold (k := 0) (fun _ => true)
    (by simp) (by simp)
  obtain rfl : pending' = [] := List.eq_nil_iff_forall_not_mem.mpr fun p hp => Nat.not_lt_zero _ (hbelow p hp)
  rw [← hwhole] at hfirst hjoins
  refine ⟨t, ⟨hfirst, hjoins, h'.last⟩, ?_⟩
  rw [hrun, toNode, hfold]
  rfl

end Grammar.OperandRun

/-! ### Stacks -/

-- A run as two stacks: the operands, and the operators that wait for their right one.
structure Stacks where
  operands : List Node
  pending  : List Operator

namespace Stacks

-- Joins the two topmost operands by the topmost operator. Without these three there is no result.
def foldBinary : Stacks → Option Stacks
  | ⟨right :: left :: operands, operator :: pending⟩ =>
    some ⟨OperandRun.join left operator right :: operands, pending⟩
  | _ => none

def foldWhile (takes : Operator → Bool) (operands : List Node) : List Operator → Option Stacks
  | [] => some ⟨operands, []⟩
  | operator :: pending =>
    if takes operator then
      (foldBinary ⟨operands, operator :: pending⟩).bind fun s => foldWhile takes s.operands pending
    else some ⟨operands, operator :: pending⟩

-- Folds what binds at least as tightly as the operator, and pushes the operator and its right operand.
def push (s : Stacks) (j : Operator × Node) : Option Stacks :=
  (foldWhile (fun op => op.level.any (j.1.grade ≤ ·)) s.operands s.pending).map fun s =>
    ⟨j.2 :: s.operands, j.1 :: s.pending⟩

def ofJoins (first : Node) (js : List (Operator × Node)) : Option Stacks :=
  js.foldlM push ⟨[first], []⟩

-- What is left when all is folded.
def finish (s : Stacks) : Option Node :=
  (foldWhile (fun _ => true) s.operands s.pending).bind fun s => s.operands.head?

def ofRun (run : OperandRun) : Stacks :=
  ⟨run.last :: run.pending.map (·.1), run.pending.map (·.2)⟩

-- The operators that wait have one operand each on their left, and there is one more.
structure IsBalanced (s : Stacks) : Prop where
  length : s.operands.length = s.pending.length + 1
  sorted : s.pending.Pairwise fun inner outer => outer.grade < inner.grade

theorem foldWhile_ofRun (takes : Operator → Bool) (pending : List (Node × Operator)) (last : Node) :
    foldWhile takes (last :: pending.map (·.1)) (pending.map (·.2)) =
      some (ofRun (OperandRun.fold takes pending last)) := by
  induction pending generalizing last
  case nil => rfl
  case cons p pending ih =>
    obtain ⟨left, operator⟩ := p
    rw [List.map_cons, List.map_cons, foldWhile, OperandRun.fold]
    split
    · exact ih _
    · rfl

theorem push_ofRun (run : OperandRun) (j : Operator × Node) :
    (ofRun run).push j = some (ofRun (run.take j)) := by
  rw [push, ofRun, foldWhile_ofRun]
  rfl

theorem finish_ofRun (run : OperandRun) : (ofRun run).finish = some run.toNode := by
  rw [finish, ofRun, foldWhile_ofRun]
  rfl

theorem ofJoins_eq (first : Node) (js : List (Operator × Node)) :
    ofJoins first js = some (ofRun (OperandRun.ofJoins first js)) := by
  have h (run : OperandRun) : js.foldlM push (ofRun run) = some (ofRun (js.foldl OperandRun.take run)) := by
    induction js generalizing run
    case nil => rfl
    case cons j js ih => rw [List.foldlM_cons, push_ofRun, List.foldl_cons, ← ih]; rfl
  exact h ⟨[], first⟩

theorem isBalanced_ofJoins {first : Node} {js : List (Operator × Node)} {s : Stacks}
    (hjs : ∀ j ∈ js, j.1.level.isSome) (h : ofJoins first js = some s) : s.IsBalanced := by
  rw [ofJoins_eq] at h
  cases h
  obtain ⟨pending, last, hrun, hstacked, -⟩ := OperandRun.exists_isStacked first hjs
  rw [hrun]
  exact ⟨by simp [ofRun], by simpa [ofRun, OperandRun.ofGroups, List.pairwise_map] using hstacked.sorted⟩

end Stacks

/-! ### Expressions -/

-- What a rule yields it has come to.
theorem Rule.Yields.ran {α : Type} {L : Token → Prop} {r : Rule α} {c : Cursor} {Q : α → Cursor → Prop}
    (h : Yields L r c Q) : Yields L r c fun a c' => r.run c = .ok (a, c') ∧ Q a c' := by
  intro hc
  have h := h hc
  rcases hrun : r.run c with _ | ⟨a, c'⟩ <;> simp only [hrun] at h ⊢
  exact ⟨h.left, trivial, h.right⟩

namespace Grammar

variable {g : Grammar} {joinsIn : Bool} {c c' : Cursor}

-- From `c` on these operators are read, each with the operand behind it.
inductive ReadsJoins (g : Grammar) (joinsIn : Bool) (c : Cursor) : List (Operator × Node) → Cursor → Prop
  | nil : ReadsJoins g joinsIn c [] c
  | join {js c' operator level right c''} :
    ReadsJoins g joinsIn c js c' → joiner? joinsIn c'.current = some (operator, level) →
    g.operand.run c'.advance = .ok (right, c'') →
    ReadsJoins g joinsIn c (js ++ [(operator, right)]) c''

theorem ReadsJoins.eq_of_nil {js : List (Operator × Node)} (h : ReadsJoins g joinsIn c js c') (hjs : js = []) :
    c' = c := by
  cases h
  case nil => rfl
  case join => simp at hjs

theorem nextOperand_reads (hg : g.IsSound Token.IsGraded) {first : Node} (hfirst : Fills Token.IsGraded .expression first)
    {c₁ : Cursor} {limit : Nat} :
    Yields Token.IsGraded (loop limit (g.nextOperand joinsIn) ⟨[], first⟩) c₁ fun run c₂ =>
      run.IsSound Token.IsGraded ∧ ∃ js, ReadsJoins g joinsIn c₁ js c₂ ∧
        joiner? joinsIn c₂.current = none ∧ (∀ j ∈ js, j.1.level.isSome) ∧ run = .ofJoins first js := by
  refine Yields.loop (I := fun run c => run.IsSound Token.IsGraded ∧ ∃ js, ReadsJoins g joinsIn c₁ js c ∧
    (∀ j ∈ js, j.1.level.isSome) ∧ run = .ofJoins first js) (fun run c hrun => ?_)
    ⟨⟨by simp, hfirst⟩, [], .nil, by simp, rfl⟩
  obtain ⟨hsound, js, hjs, hlevels, rfl⟩ := hrun
  intro hc
  refine Yields.bind (L := Token.IsGraded) .current (fun t c' ht => ?_) hc
  obtain ⟨rfl, rfl⟩ := ht
  split
  case h_2 hj => exact .pure ⟨hsound, js, hjs, hj, hlevels, rfl⟩
  case h_1 operator level hj =>
    have hk : c'.current.kind ≠ .endOfInput := by
      intro hk
      simp [joiner?, hk] at hj
    have hlevel : operator.level = some level := hc.current_of_ne hk _ _ _ hj
    refine Yields.skip.bind fun _ c hadvance => ?_
    subst hadvance
    refine (operand_yields hg).ran.bind fun right c hright => ?_
    refine .pure ⟨hsound.push (joins_of_joiner? hc.current_of_ne hj) hright.right, js ++ [(operator, right)],
      hjs.join hj hright.left, ?_, ?_⟩
    · simpa [or_imp, forall_and, hlevel] using hlevels
    · simp [OperandRun.ofJoins, OperandRun.take, Operator.grade, hlevel]

-- What an expression is made of: a first operand, and what is joined to it.
theorem expressionRule_reads (hg : g.IsSound Token.IsGraded) (sequence joinsIn : Bool) :
    Yields Token.IsGraded (g.expressionRule sequence joinsIn) c fun n c' => ∃ first c₁ js c₂,
      (g.primary >>= g.followed ⟨sequence, true, true⟩).run c = .ok (first, c₁) ∧
      ReadsJoins g joinsIn c₁ js c₂ ∧ joiner? joinsIn c₂.current = none ∧
      (∀ j ∈ js, j.1.level.isSome) ∧
      if js = [] then n = first ∧ c' = c₂
      else (g.followed ⟨sequence, true, true⟩ (OperandRun.ofJoins first js).toNode).run c₂ = .ok (n, c') := by
  rw [expressionRule_eq]
  have hleading : Yields Token.IsGraded (g.primary >>= g.followed ⟨sequence, true, true⟩) c
      fun n _ => Fills Token.IsGraded .expression n :=
    (hg.primary _).bind fun _ _ hn => followed_yields hg _ hn
  refine hleading.ran.bind fun first c₁ hfirst => ?_
  obtain ⟨hfirst, hsound⟩ := hfirst
  refine Yields.current.bind fun t c' ht => ?_
  obtain ⟨rfl, rfl⟩ := ht
  split
  case isTrue hj =>
    exact .pure ⟨first, _, [], _, hfirst, .nil, Option.isNone_iff_eq_none.mp hj, by simp, rfl, rfl⟩
  case isFalse hj =>
    refine (nextOperand_reads hg hsound).bind fun run c₂ hrun => ?_
    obtain ⟨hsound, js, hjs, hend, hlevels, rfl⟩ := hrun
    have hne : js ≠ [] := by
      intro hnil
      rw [hjs.eq_of_nil hnil] at hend
      exact hj (by simp [hend])
    refine (followed_yields hg _ (OperandRun.fold_isSound _ hsound).last).ran.mono fun n c' hn => ?_
    exact ⟨first, _, js, c₂, hfirst, hjs, hend, hlevels, by rw [if_neg hne]; exact hn.left⟩

-- How an expression `n` is read from `c` on and folded: the rule reads a first operand and what is joined
-- to it, and what follows the whole is looked for behind `t`, if anything was joined.
structure Folds (g : Grammar) (sequence joinsIn : Bool) (c : Cursor) (first : Node)
    (js : List (Operator × Node)) (t : Grouping) (n : Node) (c' : Cursor) : Prop where
  reads    : ∃ c₁ c₂, (g.primary >>= g.followed ⟨sequence, true, true⟩).run c = .ok (first, c₁) ∧
               g.ReadsJoins joinsIn c₁ js c₂ ∧ joiner? joinsIn c₂.current = none ∧
               if js = [] then n = t.toNode ∧ c' = c₂
               else (g.followed ⟨sequence, true, true⟩ t.toNode).run c₂ = .ok (n, c')
  leveled  : ∀ j ∈ js, j.1.level.isSome
  -- There is no other grouping by levels.
  groups   : ∀ t', t'.Groups first js ↔ t' = t
  -- On the way the stacks are balanced after each operand that was read, and nothing is missing.
  balanced : ∀ k, ∃ s, Stacks.ofJoins first (js.take k) = some s ∧ s.IsBalanced
  folded   : (Stacks.ofJoins first js).bind Stacks.finish = some t.toNode

-- Whatever the parser reads as an expression is grouped by the levels of its operators, from the left
-- where the levels are the same.
theorem expressionRule_folds {depth : Nat} {sequence : Bool} {n : Node} (hc : c.Within Token.IsGraded)
    (h : ((ofDepth depth).expressionRule sequence joinsIn).run c = .ok (n, c')) :
    ∃ first js t, (ofDepth depth).Folds sequence joinsIn c first js t n c' := by
  have hreads := expressionRule_reads (ofDepth_isSound Token.IsGraded depth) sequence joinsIn hc
  rw [h] at hreads
  obtain ⟨-, first, c₁, js, c₂, hfirst, hjs, hend, hlevels, hn⟩ := hreads
  obtain ⟨t, ht, hnode⟩ := OperandRun.exists_grouping first hlevels
  refine ⟨first, js, t, ⟨c₁, c₂, hfirst, hjs, hend, ?_⟩, hlevels, fun t' => ⟨ht.unique, fun h => h ▸ ht⟩,
    fun k => ⟨_, Stacks.ofJoins_eq _ _, ?_⟩, ?_⟩
  · rw [hnode] at hn
    split at hn
    case isTrue hnil =>
      subst hnil
      rw [if_pos rfl, ← hnode]
      exact hn
    case isFalse hne => rwa [if_neg hne]
  · exact Stacks.isBalanced_ofJoins (fun j hj => hlevels j (List.mem_of_mem_take hj)) (Stacks.ofJoins_eq _ _)
  · rw [Stacks.ofJoins_eq, Option.bind_some, Stacks.finish_ofRun, hnode]

theorem ofTokens_isGraded (source : String) :
    (Cursor.ofTokens (Token.ofSource source true)).Within Token.IsGraded :=
  .passOver (fun _ => Token.isGraded_of_mem) (Cursor.endingOf_kind _)

-- Four levels in one run.
theorem expressionRule_folds_levels :
    let c := Cursor.ofTokens (Token.ofSource "a-b*c<d-e&&f" true)
    c.Within Token.IsGraded ∧ ∃ n c', ((ofDepth 40).expressionRule true true).run c = .ok (n, c') ∧
      ∃ first js t, (ofDepth 40).Folds true true c first js t n c' := by
  intro c
  have hc : c.Within Token.IsGraded := ofTokens_isGraded _
  have hok : (((ofDepth 40).expressionRule true true).run c).isOk := by decide +kernel
  rcases hrun : ((ofDepth 40).expressionRule true true).run c with _ | ⟨n, c'⟩
  · rw [hrun] at hok
    cases hok
  · exact ⟨hc, n, c', rfl, expressionRule_folds hc hrun⟩

end Grammar

end ScriptTree
