import Sobby.Histories
import Sobby.StepMachine

/-! Maps from paths to leaves in which everything hangs on nodes, and the history of what has been
written where. Nothing here is about one particular tree: the names and the values are
parameters. -/
namespace PathMaps

open StepMachine
open Histories

variable {κ α : Type*}

inductive Cell (α : Type*) where
  | absent
  | leaf (a : α)
  | node
  deriving DecidableEq, Repr

def Cell.fresh : Option α → Cell α
  | some a => .leaf a
  | none => .node

@[ext]
structure PathMap (κ α : Type*) where
  cell : List κ → Cell α
  root : cell [] = .node
  closed : ∀ path name, cell (path ++ [name]) ≠ .absent → cell path = .node

theorem PathMap.above (t : PathMap κ α) {path rest : List κ} (hrest : rest ≠ [])
    (h : t.cell (path ++ rest) ≠ .absent) : t.cell path = .node := by
  induction rest generalizing path with
  | nil => exact absurd rfl hrest
  | cons name rest ih =>
    have hfirst : t.cell (path ++ [name]) ≠ .absent := by
      by_cases hlast : rest = []
      · simpa [hlast] using h
      · have hassoc : path ++ name :: rest = path ++ [name] ++ rest := by simp
        have hnode := ih hlast (hassoc ▸ h)
        simp [hnode]
    exact t.closed path name hfirst

theorem fresh_eq_leaf {x : Option α} {a : α} : Cell.fresh x = .leaf a ↔ x = some a := by
  cases x with
  | none => simp [Cell.fresh]
  | some b => simp [Cell.fresh]

/-- A path map and the history of what was written where. -/
structure Recorded (κ α : Type*) where
  tree : PathMap κ α
  writes : List (List κ × Option α)

/-- The leaf `a` was the last thing written at the path, and nothing has been written there or
above it since, or it is the leaf of the first tree and nothing has been written there at all. -/
def LastStored (first : PathMap κ α) (writes : List (List κ × Option α)) (path : List κ) (a : α) :
    Prop :=
  Since (fun w => w = (path, some a)) (fun w => w.1 <+: path) writes ∨
    (∀ w ∈ writes, ¬ w.1 <+: path) ∧ first.cell path = .leaf a

theorem lastStored_cons {first : PathMap κ α} {w : List κ × Option α}
    {writes : List (List κ × Option α)} {path : List κ} {a : α} :
    LastStored first (w :: writes) path a ↔
      w = (path, some a) ∨ ¬ w.1 <+: path ∧ LastStored first writes path a := by
  rw [LastStored, since_cons, LastStored, List.forall_mem_cons, and_assoc, or_assoc, and_or_left]

def Tells (first : PathMap κ α) (r : Recorded κ α) : Prop :=
  ∀ path a, r.tree.cell path = .leaf a ↔ LastStored first r.writes path a

theorem tells_start (first : PathMap κ α) : Tells first ⟨first, []⟩ := by
  intro path a
  have hnever : ¬ Since (fun w => w = (path, some a)) (fun w => w.1 <+: path) [] := not_since_nil
  simp [LastStored, hnever]

variable [DecidableEq κ]

def putCell (cell : List κ → Cell α) (target : List κ) (x : Option α) (path : List κ) : Cell α :=
  if path = target then Cell.fresh x else if target <+: path then .absent else cell path

section PutCell

variable {cell : List κ → Cell α} {target path : List κ} {x : Option α}

theorem putCell_self : putCell cell target x target = Cell.fresh x := by
  rw [putCell, if_pos rfl]

theorem putCell_below (hne : path ≠ target) (h : target <+: path) :
    putCell cell target x path = .absent := by
  rw [putCell, if_neg hne, if_pos h]

theorem putCell_other (h : ¬ target <+: path) : putCell cell target x path = cell path := by
  have hne : path ≠ target := by
    rintro rfl
    exact h (List.prefix_refl path)
  rw [putCell, if_neg hne, if_neg h]

theorem putCell_append (above rest : List κ) :
    putCell cell (above ++ target) x (above ++ rest) =
      putCell (fun path => cell (above ++ path)) target x rest := by
  simp only [putCell, List.append_cancel_left_eq, List.prefix_append_right_inj]

theorem putCell_eq_leaf {a : α} :
    putCell cell target x path = .leaf a ↔
      (target, x) = (path, some a) ∨ ¬ target <+: path ∧ cell path = .leaf a := by
  by_cases hsame : path = target
  · subst hsame
    simp [putCell_self, fresh_eq_leaf]
  · by_cases hbelow : target <+: path
    · simp [putCell_below hsame hbelow, hbelow, Ne.symm hsame]
    · simp [putCell_other hbelow, hbelow, Ne.symm hsame]

end PutCell

def PathMap.put (t : PathMap κ α) (parent : List κ) (name : κ) (x : Option α)
    (h : t.cell parent = .node) : PathMap κ α where
  cell := putCell t.cell (parent ++ [name]) x
  root := by
    have hroot : ¬ parent ++ [name] <+: [] := by simp
    rw [putCell_other hroot, t.root]
  closed := by
    intro path child hthere
    by_cases hpath : parent ++ [name] <+: path
    · have hbelow : parent ++ [name] <+: path ++ [child] := hpath.trans (List.prefix_append _ _)
      have hne : path ++ [child] ≠ parent ++ [name] := by
        intro he
        have hlen := hpath.length_le
        rw [← he, List.length_append, List.length_singleton] at hlen
        omega
      exact absurd (putCell_below hne hbelow) hthere
    · rw [putCell_other hpath]
      by_cases hsame : path ++ [child] = parent ++ [name]
      · rw [(List.append_inj' hsame rfl).1, h]
      · by_cases hbelow : parent ++ [name] <+: path ++ [child]
        · exact absurd (putCell_below hsame hbelow) hthere
        · rw [putCell_other hbelow] at hthere
          exact t.closed path child hthere

inductive Action (α : Type*) where
  | ensureNode
  | freshNode
  | setLeaf (a : α)
  | supplyLeaf (a : α)

def Action.writes : Action α → Cell α → Option (Option α)
  | .ensureNode, .node => none
  | .ensureNode, _ => some none
  | .freshNode, _ => some none
  | .setLeaf a, _ => some (some a)
  | .supplyLeaf _, .leaf _ => none
  | .supplyLeaf a, _ => some (some a)

structure Event (κ α : Type*) where
  parent : List κ
  name : κ
  action : Action α

def Event.target (e : Event κ α) : List κ := e.parent ++ [e.name]

variable [DecidableEq α]

def Recorded.step (r : Recorded κ α) (e : Event κ α) : Option (Recorded κ α) :=
  if h : r.tree.cell e.parent = .node then
    match e.action.writes (r.tree.cell e.target) with
    | none => some r
    | some x => some ⟨r.tree.put e.parent e.name x h, (e.target, x) :: r.writes⟩
  else none

section Steps

variable {r r' : Recorded κ α} {e : Event κ α}

theorem step_cases (h : r.step e = some r') :
    r.tree.cell e.parent = .node ∧
    ((e.action.writes (r.tree.cell e.target) = none ∧ r' = r) ∨
      ∃ x, e.action.writes (r.tree.cell e.target) = some x ∧
        r'.tree.cell = putCell r.tree.cell e.target x ∧ r'.writes = (e.target, x) :: r.writes) := by
  unfold Recorded.step at h
  split at h
  · next hparent =>
    refine ⟨hparent, ?_⟩
    split at h
    · next hw => exact Or.inl ⟨hw, (Option.some.inj h).symm⟩
    · next x hw =>
      obtain rfl := Option.some.inj h
      exact Or.inr ⟨x, hw, rfl, rfl⟩
  · cases h

theorem step_keeps (h : r.tree.cell e.parent = .node)
    (hw : e.action.writes (r.tree.cell e.target) = none) : r.step e = some r := by
  rw [Recorded.step, dif_pos h, hw]

theorem step_writes (h : r.tree.cell e.parent = .node) {x : Option α}
    (hw : e.action.writes (r.tree.cell e.target) = some x) :
    r.step e = some ⟨r.tree.put e.parent e.name x h, (e.target, x) :: r.writes⟩ := by
  rw [Recorded.step, dif_pos h, hw]

theorem step_frame (h : r.step e = some r') {path : List κ} (hpath : ¬ e.target <+: path) :
    r'.tree.cell path = r.tree.cell path := by
  obtain ⟨_, ⟨_, rfl⟩ | ⟨x, _, htree, _⟩⟩ := step_cases h
  · rfl
  · rw [htree, putCell_other hpath]

theorem tells_step {first : PathMap κ α} (hr : Tells first r) (h : r.step e = some r') :
    Tells first r' := by
  obtain ⟨_, ⟨_, rfl⟩ | ⟨x, _, htree, hwrites⟩⟩ := step_cases h
  · exact hr
  · intro path a
    rw [htree, hwrites, putCell_eq_leaf, lastStored_cons, hr path a]

end Steps

/-- What the leaves are after any run is told by the history alone. -/
theorem tells_reachable {first : PathMap κ α} {r : Recorded κ α}
    (h : Reachable Recorded.step ⟨first, []⟩ r) : Tells first r :=
  reachable_invariant (fun _ _ _ hr hs => tells_step hr hs) (tells_start first) h

end PathMaps
