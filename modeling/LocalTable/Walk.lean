import LocalTable.IndexSet

/-!
# Depth-first walks over positions

Several questions about a method are answered by walking from a position along
its control flow, forwards or backwards, until the walk has nothing left to
look at.  A walk keeps a stack of pending positions and the set of positions
already visited.  It never visits a position twice, and it ignores positions
beyond the end of the method, so it ends on every graph.
-/

namespace LocalTable.Walk

/-- Is the position still to be visited? -/
def isFresh (size : Nat) (seen : IndexSet) (position : Nat) : Bool :=
  position < size && !seen.contains position

theorem isFresh_of_dropWhile {size position : Nat} {seen : IndexSet}
    {pending rest : List Nat}
    (next : pending.dropWhile (fun other => !isFresh size seen other) =
      position :: rest) :
    position < size ∧ seen.contains position = false := by
  have head := List.head?_dropWhile_not (fun other => !isFresh size seen other) pending
  rw [next] at head
  simpa [isFresh] using head

/-- Walk from the pending positions (the next one first), passing over those that
are not to be visited.  `visit` looks at a position, updates the state, and answers
where the walk goes on from there; the last position that it answers is the next one
to be visited. -/
def run {σ : Type} {m : Type → Type} [Monad m] (size : Nat)
    (visit : Nat → σ → m (σ × List Nat)) (pending : List Nat) (seen : IndexSet)
    (state : σ) : m σ :=
  match next : pending.dropWhile (fun position => !isFresh size seen position) with
  | [] => pure state
  | position :: rest =>
      have fresh := isFresh_of_dropWhile next
      have := IndexSet.missingBelow_insert_lt fresh.1 fresh.2
      visit position state >>= fun (state, onward) =>
        run size visit (onward.reverse ++ rest) (seen.insert position) state
termination_by seen.missingBelow size

end LocalTable.Walk
