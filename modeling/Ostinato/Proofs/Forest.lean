import Ostinato.Statement

/-!
# Forests of statements

A program tree is a list of statements of which labels and loops hold further lists. `induct` is
induction over such a list with the bodies as smaller lists, so that a property of trees is proved
in one induction and not in two mutual ones. `nodes` lists the statements of a tree wherever they
stand, each before those of its body.
-/

namespace Ostinato

def Statement.isBlock : Statement → Bool
  | label .. | loop .. => true
  | _ => false

def Statement.body? : Statement → Option (List Statement)
  | label _ body _ | loop _ body _ => some body
  | _ => none

def Statement.isJump : Statement → Bool
  | .jump _ => true
  | _ => false

namespace Forest

@[elab_as_elim]
theorem induct {P : List Statement → Prop} (nil : P [])
    (label : ∀ name body pos rest, P body → P rest → P (.label name body pos :: rest))
    (loop : ∀ count body pos rest, P body → P rest → P (.loop count body pos :: rest))
    (leaf : ∀ s rest, s.isBlock = false → P rest → P (s :: rest)) : ∀ tree, P tree
  | [] => nil
  | .label name body pos :: rest =>
    label name body pos rest (induct nil label loop leaf body) (induct nil label loop leaf rest)
  | .loop count body pos :: rest =>
    loop count body pos rest (induct nil label loop leaf body) (induct nil label loop leaf rest)
  | .tempo _ :: rest | .send _ :: rest | .looseSend _ :: rest | .wait _ :: rest
  | .jump _ :: rest | .play _ :: rest | .setting _ :: rest =>
    leaf _ rest rfl (induct nil label loop leaf rest)

/-- The statements of a tree at any depth, in program order. -/
def nodes : List Statement → List Statement
  | [] => []
  | .label name body pos :: rest => .label name body pos :: (nodes body ++ nodes rest)
  | .loop count body pos :: rest => .loop count body pos :: (nodes body ++ nodes rest)
  | s :: rest => s :: nodes rest

@[simp] theorem nodes_nil : nodes [] = [] := by simp [nodes]

theorem nodes_label (name : String) (body : List Statement) (pos : Pos) (rest : List Statement) :
    nodes (.label name body pos :: rest) = .label name body pos :: (nodes body ++ nodes rest) := by
  simp [nodes]

theorem nodes_loop (count : Option Int) (body : List Statement) (pos : Pos)
    (rest : List Statement) :
    nodes (.loop count body pos :: rest) = .loop count body pos :: (nodes body ++ nodes rest) := by
  simp [nodes]

theorem nodes_leaf {s : Statement} (hs : s.isBlock = false) (rest : List Statement) :
    nodes (s :: rest) = s :: nodes rest := by
  cases s with
  | label | loop => simp [Statement.isBlock] at hs
  | _ => simp [nodes]

theorem nodes_cons (s : Statement) (rest : List Statement) :
    ∃ after, nodes (s :: rest) = s :: after := by
  cases s with
  | label name body pos => exact ⟨_, nodes_label name body pos rest⟩
  | loop count body pos => exact ⟨_, nodes_loop count body pos rest⟩
  | _ => exact ⟨_, nodes_leaf rfl rest⟩

theorem nodes_append (a b : List Statement) : nodes (a ++ b) = nodes a ++ nodes b := by
  induction a with
  | nil => simp
  | cons s rest ih => cases s <;> simp [nodes, ih]

/-- Whether a predicate holds of every statement of a tree. -/
def Each (P : Statement → Prop) (tree : List Statement) : Prop := ∀ s ∈ nodes tree, P s

section
variable {P : Statement → Prop} {s : Statement} {rest : List Statement}

theorem Each.label {name : String} {body : List Statement} {pos : Pos}
    (h : Each P (.label name body pos :: rest)) :
    P (.label name body pos) ∧ Each P body ∧ Each P rest := by
  unfold Each at h
  rw [nodes_label] at h
  exact ⟨h _ (by simp), fun t ht => h t (by simp [ht]), fun t ht => h t (by simp [ht])⟩

theorem Each.loop {count : Option Int} {body : List Statement} {pos : Pos}
    (h : Each P (.loop count body pos :: rest)) :
    P (.loop count body pos) ∧ Each P body ∧ Each P rest := by
  unfold Each at h
  rw [nodes_loop] at h
  exact ⟨h _ (by simp), fun t ht => h t (by simp [ht]), fun t ht => h t (by simp [ht])⟩

theorem Each.leaf (hs : s.isBlock = false) (h : Each P (s :: rest)) : P s ∧ Each P rest := by
  unfold Each at h
  rw [nodes_leaf hs] at h
  exact ⟨h _ (by simp), fun t ht => h t (by simp [ht])⟩

end

end Forest

end Ostinato
