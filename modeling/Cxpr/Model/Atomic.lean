import Cxpr.Model.Expressions

/-! State updates are atomic across a tick: the bindings of a tick read what the updates of the tick before computed, and
    the order in which they are evaluated does not matter as long as it respects their dependencies. -/

namespace Cxpr.Model
variable {D χ : Type} [Double D]

/-- What a run of ticks shows: in each of them every evaluation reads each state as the tick before left it, and the same
    ticks with the bindings in any other order that respects the dependencies have the same results. -/
def AtomicUpdates (rt : Runtime D χ) (p : Program D) (defaults : List (String × Value D))
    (dep : Binding D → Binding D → Prop) (s₀ : Session D χ) (ws : List (HostWrites D)) (past : List (List (Event D)))
    (s : Session D χ) : Prop :=
  Staged rt p defaults past ∧
  ∀ (bs : List (Binding D)) (hperm : p.bindings.Perm bs), Reorder.Ordered dep bs →
    ∃ past' s', Run rt (p.reorder bs hperm) (fun _ _ => True) s₀ ws past' s' ∧ Same s s' ∧
      List.Forall₂ (fun evs evs' => (results evs).Perm (results evs')) past past'

theorem Run.weaken {rt : Runtime D χ} {p : Program D} {meets meets' : HostWrites D → Session D χ → Prop} {s₀ s : Session D χ}
    {ws : List (HostWrites D)} {past : List (List (Event D))} (hmeets : ∀ w s, meets w s → meets' w s)
    (h : Run rt p meets s₀ ws past s) : Run rt p meets' s₀ ws past s := by
  induction h with
  | start => exact .start
  | tick w _ hw htick ih => exact .tick w ih (hmeets _ _ hw) htick

/-- `state s = 0`, `s := s + x` and `b = s + 1`. -/
def counter : Program Int where
  constants := []
  stateDefaults := [⟨"s", .number, .inl (.number 0)⟩]
  bindings := [⟨"s", .stateUpdate, .number, false, .binary .plus (.identifier "s") (.identifier "x")⟩,
    ⟨"b", .expr, .number, false, .binary .plus (.identifier "s") (.number 1)⟩]
  inputs := ["x"]
  outputs := ["b"]
  historySpecs := []
  binding_names := by decide
  state_names := by decide
  input_free := by simp
  update_known := by simp
  expr_free := by simp

def counterRuntime : Runtime Int Unit := treeRuntime {} 1 ["s", "x", "b"] 0

/-- `state s = 1i64`, `s := "a"` and `b = s`. -/
def retyped : Program Int where
  constants := []
  stateDefaults := [⟨"s", .int64, .inl (.int64 1)⟩]
  bindings := [⟨"s", .stateUpdate, .int64, false, .string "a"⟩, ⟨"b", .expr, .unknown, false, .identifier "s"⟩]
  inputs := []
  outputs := ["b"]
  historySpecs := []
  binding_names := by decide
  state_names := by decide
  input_free := by simp
  update_known := by simp
  expr_free := by simp

def retypedRuntime : Runtime Int Unit := treeRuntime {} 1 ["s", "b"] 0

end Cxpr.Model
