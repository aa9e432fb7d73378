import PropertyExpr.Proofs.ParserOverrun
import PropertyExpr.Proofs.ParserSimulation
/-!
# Every state of a parser

`parse` says where a call leaves the parser, not where the parser has been on the way there. A `Recorder` records the
state behind each operation. Run in it, the parser shows all states that it goes through, and `staysInBounds` is about
them, over any number of calls: the open levels stay within `maxDepth`, the position never goes back and never passes
an end token. Behind a call no level is open, so the next one may nest as deeply as the first, and a call that gives a
tree has counted the operators of that tree.

An operation changes the state by at most one `Step`, so a recorder runs as the parser does and records a path of such
steps (`Recorder.simulation`), and the bounds need only be kept by one step.
-/
namespace PropertyExpr.Expr.Parser

variable {tokens : Array Token}

/-! ## Steps -/

/-- The changes that one operation makes. -/
inductive Step (tokens : Array Token) (s : Progress) : Progress → Prop where
  | stay : Step tokens s s
  | advance (h : kindAt tokens s.position ≠ .blockEnd) : Step tokens s { s with position := s.position + 1 }
  | enter (h : s.depth < maxDepth) : Step tokens s { s with depth := s.depth + 1 }
  | leave : Step tokens s { s with depth := s.depth - 1 }
  | charge : Step tokens s { s with operators := s.operators + 1 }

namespace Step

variable {s t : Progress}

theorem depth_le (h : Step tokens s t) (hs : s.depth ≤ maxDepth) : t.depth ≤ maxDepth := by
  cases h with
  | enter h => exact h
  | leave => exact Nat.le_trans (Nat.sub_le s.depth 1) hs
  | stay | advance | charge => exact hs

theorem position_le (h : Step tokens s t) : s.position ≤ t.position := by
  cases h with
  | advance => exact Nat.le_succ s.position
  | stay | enter | leave | charge => exact Nat.le_refl s.position

/-- An end token is not passed. -/
theorem position_le_of_blockEnd {i : Nat} (h : Step tokens s t) (hi : kindAt tokens i = .blockEnd)
    (hs : s.position ≤ i) : t.position ≤ i := by
  cases h with
  | advance h =>
    have hne : s.position ≠ i := by
      rintro rfl
      exact h hi
    exact Nat.lt_of_le_of_ne hs hne
  | stay | enter | leave | charge => exact hs

end Step

/-- From `s` by steps to `t`; `steps` are the states behind each of them. -/
inductive Path (tokens : Array Token) : Progress → (steps : List Progress) → Progress → Prop where
  | nil {s : Progress} : Path tokens s [] s
  | cons {s t u : Progress} {steps : List Progress} (step : Step tokens s t) (rest : Path tokens t steps u) :
      Path tokens s (t :: steps) u

namespace Path

variable {s t u : Progress} {steps steps' : List Progress}

theorem append (h : Path tokens s steps t) (h' : Path tokens t steps' u) : Path tokens s (steps ++ steps') u := by
  induction h with
  | nil => exact h'
  | cons step _ ih => exact .cons step (ih h')

/-- What each step keeps holds all the way. -/
theorem forall_of_step {P : Progress → Prop} (kept : ∀ s t, Step tokens s t → P s → P t) (h : Path tokens s steps t)
    (hs : P s) : ∀ u ∈ steps, P u := by
  induction h with
  | nil => simp
  | cons step _ ih =>
    have ht := kept _ _ step hs
    intro u hu
    rcases List.mem_cons.1 hu with rfl | hu
    · exact ht
    · exact ih ht u hu

theorem pairwise_position (h : Path tokens s steps t) :
    (s :: steps).Pairwise fun u v => u.position ≤ v.position := by
  induction h with
  | nil => exact List.pairwise_singleton _ _
  | @cons s t u steps step rest ih =>
    refine List.pairwise_cons.2 ⟨?_, ih⟩
    exact forall_of_step (fun u v huv hu => Nat.le_trans hu huv.position_le) (.cons step rest) (Nat.le_refl s.position)

end Path

/-- Where a run ends, whether it stops or not. -/
def stateBehind {α : Type} : EStateM.Result Stop Progress α → Progress
  | .ok _ t => t
  | .error _ t => t

theorem step_operation {α : Type} {p : Parser α} (h : Operation tokens p) (s : Progress) :
    Step tokens s (stateBehind (p.run s)) := by
  cases h with
  | current | refuse | unexpected | breakOff => exact .stay
  | previousLocation? =>
    rw [run_previousLocation?]
    exact .stay
  | advance =>
    by_cases h : kindAt tokens s.position = .blockEnd
    · have hrun : (advance tokens).run s = .ok () s := by
        rw [advance, run_bind_ok run_current, run_ite]
        exact if_neg (fun hne => hne h)
      rw [hrun]
      exact .stay
    · rw [run_advance h]
      exact .advance h
  | @expect kind hk =>
    rw [run_expect hk]
    by_cases h : kindAt tokens s.position = kind
    · rw [if_pos h]
      exact .advance (h ▸ hk)
    · rw [if_neg h]
      exact .stay
  | identifier =>
    rw [run_identifier]
    cases h : kindAt tokens s.position with
    | ident => exact .advance (by simp [h])
    | _ => exact .stay
  | enter =>
    rw [run_enter]
    by_cases h : s.depth < maxDepth
    · rw [if_pos h]
      exact .enter h
    · rw [if_neg h]
      exact .stay
  | charge location =>
    have hcounted : stateBehind ((charge location).run s) = { s with operators := s.operators + 1 } := by
      rw [charge, EStateM.run_bind, EStateM.run_modify]
      simp only [EStateM.run_bind, EStateM.run_get, run_ite]
      split <;> rfl
    rw [hcounted]
    exact .charge

/-! ## Recording -/

/-- A parser's state and those it has been in, the oldest first. -/
structure Trail where
  now : Progress
  past : List Progress

def Trail.add (r : Trail) (t : Progress) : Trail := ⟨t, r.past ++ [t]⟩

/-- A run that leaves a trail. -/
abbrev Recorder := EStateM Stop Trail

namespace Recorder

/-- Runs one operation and records the state behind it, however it ends. -/
def record {α : Type} (p : Parser α) : Recorder α := fun r =>
  match p r.now with
  | .ok a t => .ok a (r.add t)
  | .error stop t => .error stop (r.add t)

instance : MonadLift Parser Recorder := ⟨record⟩

/-- The same result of a run that has a trail. -/
def withTrail {α : Type} (past : List Progress) : EStateM.Result Stop Progress α → EStateM.Result Stop Trail α
  | .ok a t => .ok a ⟨t, past⟩
  | .error stop t => .error stop ⟨t, past⟩

/-- From `s` on `w` runs as `p` does and records the steps that `p` takes. -/
def Records {α : Type} (tokens : Array Token) (s : Progress) (w : Recorder α) (p : Parser α) : Prop :=
  ∀ past, ∃ steps, Path tokens s steps (stateBehind (p.run s)) ∧ w.run ⟨s, past⟩ = withTrail (past ++ steps) (p.run s)

variable {α β : Type} {s : Progress} {w : Recorder α} {p : Parser α} {g : α → Recorder β} {f : α → Parser β}

theorem records_record (h : Step tokens s (stateBehind (p.run s))) : Records tokens s (liftM p) p := by
  intro past
  refine ⟨[stateBehind (p.run s)], .cons h .nil, ?_⟩
  change (match p.run s with
    | .ok a t => EStateM.Result.ok a (Trail.add ⟨s, past⟩ t)
    | .error stop t => .error stop (Trail.add ⟨s, past⟩ t)) = _
  cases p.run s <;> rfl

theorem Records.bind (h : Records tokens s w p) (hf : ∀ a t, p.run s = .ok a t → Records tokens t (g a) (f a)) :
    Records tokens s (w >>= g) (p >>= f) := by
  intro past
  obtain ⟨steps, path, hrun⟩ := h past
  rw [EStateM.run_bind, EStateM.run_bind, hrun]
  cases hp : p.run s with
  | error stop t =>
    rw [hp] at path
    exact ⟨steps, path, rfl⟩
  | ok a t =>
    rw [hp] at path
    obtain ⟨steps', path', hrun'⟩ := hf a t hp (past ++ steps)
    rw [List.append_assoc] at hrun'
    exact ⟨steps ++ steps', path.append path', hrun'⟩

theorem run_finally_liftM_leave (w : Recorder α) (r : Trail) :
    (tryFinally w (liftM leave : Recorder Unit)).run r = match w.run r with
      | .ok a r => .ok a (r.add { r.now with depth := r.now.depth - 1 })
      | .error stop r => .error stop (r.add { r.now with depth := r.now.depth - 1 }) := by
  simp only [EStateM.run, tryFinally, tryFinally', Functor.map, EStateM.map]
  cases w r <;> rfl

/-- The level is closed on the trail too, however `p` ends. -/
theorem Records.finally_leave (h : Records tokens s w p) :
    Records tokens s (tryFinally w (liftM leave : Recorder Unit)) (tryFinally p leave) := by
  intro past
  obtain ⟨steps, path, hrun⟩ := h past
  rw [run_finally_liftM_leave, run_finally_leave, hrun]
  cases hp : p.run s with
  | _ =>
    rw [hp] at path
    refine ⟨steps ++ [_], path.append (.cons .leave .nil), ?_⟩
    rw [← List.append_assoc]
    rfl

/-- A recorder simulates the parser. -/
theorem simulation : Simulation tokens Recorder (Records tokens) where
  pure s a past := ⟨[], .nil, by rw [List.append_nil]; rfl⟩
  bind := Records.bind
  operation s h := records_record (step_operation h s)
  finally_leave := Records.finally_leave

end Recorder

/-! ## Calls -/

/-- A call with the states that it goes through. -/
def recordedParse (tokens : Array Token) (s : Progress) : (Except Stop Expr × Progress) × List Progress :=
  match (expression tokens : Recorder Expr) ⟨s, []⟩ with
  | .ok e r => ((.ok e, r.now), r.past)
  | .error stop r => ((.error stop, r.now), r.past)

/-- A call goes the way that is recorded, and recording changes nothing else. -/
theorem recordedParse_spec (tokens : Array Token) (s : Progress) :
    (recordedParse tokens s).1 = parse tokens s ∧ Path tokens s (recordedParse tokens s).2 (parse tokens s).2 := by
  have hsimulation : Simulation tokens Recorder (Recorder.Records tokens) := Recorder.simulation
  obtain ⟨steps, path, hrun⟩ := hsimulation.expression s []
  rw [List.nil_append] at hrun
  simp only [EStateM.run] at path hrun
  rw [recordedParse, hrun, parse]
  cases hp : (expression tokens : Parser Expr) s with
  | _ =>
    rw [hp] at path
    exact ⟨rfl, path⟩

/-- The states that `calls` calls on a fresh parser go through. -/
def trail (tokens : Array Token) : (calls : Nat) → List Progress
  | 0 => []
  | calls + 1 => trail tokens calls ++ (recordedParse tokens (progressAfter tokens calls)).2

theorem path_trail (tokens : Array Token) (calls : Nat) :
    Path tokens .start (trail tokens calls) (progressAfter tokens calls) := by
  induction calls with
  | zero => exact .nil
  | succ calls ih => exact ih.append (recordedParse_spec tokens (progressAfter tokens calls)).2

/-- A call that gives a tree has counted the operators of the tree, and none of an integer with its signs. -/
theorem operators_of_parse_eq_ok {s : Progress} (hs : s.depth = 0) {e : Expr} (h : (parse tokens s).1 = .ok e) :
    (parse tokens s).2.operators = s.operators + e.operatorCount := by
  have hends := callEnds tokens hs
  generalize parse tokens s = call at hends h
  cases hends with
  | accepted =>
    cases h
    rfl
  | unfinished | failed => cases h

/-- What holds of `calls` calls on a fresh parser, however they end, and of the call behind them. -/
structure StaysInBounds (tokens : Array Token) (calls : Nat) : Prop where
  path : Path tokens .start (trail tokens calls) (progressAfter tokens calls)
  levels : ∀ s ∈ trail tokens calls, s.depth ≤ maxDepth
  closed : (progressAfter tokens calls).depth = 0
  forward : (Progress.start :: trail tokens calls).Pairwise fun s t => s.position ≤ t.position
  beforeEnd : ∀ i, kindAt tokens i = .blockEnd → ∀ s ∈ trail tokens calls, s.position ≤ i
  /-- The trail of the next call is that of the parser itself. -/
  recorded : (recordedParse tokens (progressAfter tokens calls)).1 = parse tokens (progressAfter tokens calls)
  counted : ∀ e, (parse tokens (progressAfter tokens calls)).1 = .ok e →
    (progressAfter tokens (calls + 1)).operators = (progressAfter tokens calls).operators + e.operatorCount
  /-- The next call has all levels to itself, and as many operators as are left. -/
  allowance : ∀ e, (parse tokens (progressAfter tokens calls)).1 = .ok e ↔
    ∃ ks, Derives .sum maxDepth ks e ∧ Reads tokens (progressAfter tokens calls).position ks ∧
      kindAt tokens ((progressAfter tokens calls).position + ks.length) = .blockEnd ∧
      Chargeable (progressAfter tokens calls).operators e.operatorCount

/-- **A parser stays in bounds** in every state of every call. -/
theorem staysInBounds (tokens : Array Token) (calls : Nat) : StaysInBounds tokens calls where
  path := path_trail tokens calls
  levels := (path_trail tokens calls).forall_of_step (fun _ _ step => step.depth_le) (Nat.zero_le maxDepth)
  closed := depth_progressAfter tokens calls
  forward := (path_trail tokens calls).pairwise_position
  beforeEnd i hi :=
    (path_trail tokens calls).forall_of_step (fun _ _ step => step.position_le_of_blockEnd hi) (Nat.zero_le i)
  recorded := (recordedParse_spec tokens (progressAfter tokens calls)).1
  counted _ := operators_of_parse_eq_ok (depth_progressAfter tokens calls)
  allowance _ := parse_fst_eq_ok_iff (depth_progressAfter tokens calls)

/-- One parenthesis more than may nest, and an integer behind them. -/
def tooDeepRow : Array Token :=
  let kinds : List Token.Kind := List.replicate (maxDepth + 1) .leftParen ++ [.integer 1, .blockEnd]
  (kinds.map fun kind => ⟨kind, .origin⟩).toArray

/-- The first call comes to the level that is too deep. From there the second one reads the integer. -/
example : progressAfter tooDeepRow 1 = ⟨129, 0, 0⟩ ∧
    (parse tooDeepRow (progressAfter tooDeepRow 1)).1.toOption = some (.number 1) := by decide +kernel

end PropertyExpr.Expr.Parser
