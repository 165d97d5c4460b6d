import Mathlib.Data.List.Infix

/-!
# Relative paths

A relative path as a list of moves from a directory, over any type of names: up to the parent,
where the root is its own parent, or down to a name. Links are not followed.
-/

namespace FileTree

inductive Move (ν : Type)
  | up
  | into (n : ν)

variable {ν : Type}

def Move.apply (d : List ν) : Move ν → List ν
  | up => d.dropLast
  | into n => d ++ [n]

/-- The directory or file that the moves lead to. -/
def walk (d : List ν) (ms : List (Move ν)) : List ν := ms.foldl Move.apply d

theorem walk_append (d : List ν) (ms ms' : List (Move ν)) :
    walk d (ms ++ ms') = walk (walk d ms) ms' := List.foldl_append

theorem walk_into (d ns : List ν) : walk d (ns.map .into) = d ++ ns := by
  induction ns generalizing d with
  | nil => exact (List.append_nil d).symm
  | cons n ns ih => exact (ih (d ++ [n])).trans (List.append_cons d n ns).symm

theorem walk_up (d : List ν) (k : Nat) :
    walk d (List.replicate k .up) = d.take (d.length - k) := by
  induction k generalizing d with
  | zero => exact (List.take_length).symm
  | succ k ih =>
    rw [List.replicate_succ]
    refine (ih d.dropLast).trans ?_
    rw [List.length_dropLast, List.dropLast_eq_take, List.take_take]
    congr 1
    omega

/-- Up to the root and down again. -/
theorem walk_over_root (d ns : List ν) :
    walk d (List.replicate d.length .up ++ ns.map .into) = ns := by
  rw [walk_append, walk_up, walk_into, Nat.sub_self, List.take_zero, List.nil_append]

end FileTree
