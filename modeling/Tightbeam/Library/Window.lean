import Mathlib.Data.List.Basic

/-!
# A sliding window over a growing stream

A buffer of bounded size that keeps the newest items of a stream: where it starts, what it holds, how
it moves as the stream grows, and how a reader's runs lie in the stream.
-/
namespace Window

variable {α : Type}

/-- The offset of the oldest item a window of this size still holds. -/
def base (size : Nat) (stream : List α) : Nat := stream.length - size

def retained (size : Nat) (stream : List α) : List α := stream.drop (base size stream)

/-- The `n` items from an offset on. -/
def run (stream : List α) (pos n : Nat) : List α := (stream.drop pos).take n

variable {size pos n m : Nat} {stream more : List α}

@[simp] theorem length_retained : (retained size stream).length = min size stream.length := by
  simp only [retained, base, List.length_drop]
  omega

theorem base_add_length : base size stream + (retained size stream).length = stream.length := by
  rw [length_retained, base]
  omega

/-- What overflows when `more` is appended leaves from the front, and moves the base by as much. -/
theorem base_append : base size (stream ++ more) =
    base size stream + ((retained size stream).length + more.length - size) := by
  rw [length_retained]
  simp only [base, List.length_append]
  omega

theorem retained_append : retained size (stream ++ more) =
    (retained size stream).drop ((retained size stream).length + more.length - size) ++
      more.drop ((retained size stream).length + more.length - size - (retained size stream).length) := by
  have hbase : base size (stream ++ more) =
      base size stream + ((retained size stream).length + more.length - size) := base_append
  rw [retained, hbase, List.drop_append, retained, List.drop_drop]
  congr 2
  simp only [base, List.length_drop]
  omega

theorem run_retained (h : base size stream ≤ pos) :
    ((retained size stream).drop (pos - base size stream)).take n = run stream pos n := by
  have hpos : base size stream + (pos - base size stream) = pos := by omega
  rw [retained, List.drop_drop, hpos, run]

@[simp] theorem length_run : (run stream pos n).length = min n (stream.length - pos) := by
  simp [run]

/-- A run already in the stream stays what it is as the stream grows. -/
theorem run_append (h : pos + n ≤ stream.length) : run (stream ++ more) pos n = run stream pos n := by
  rw [run, List.drop_append_of_le_length (by omega), List.take_append_of_le_length]
  · rfl
  · rw [List.length_drop]
    omega

/-- Two runs that meet are one. -/
theorem run_join : run stream pos n ++ run stream (pos + n) m = run stream pos (n + m) := by
  rw [run, run, run, ← List.drop_drop, List.take_add]

theorem run_cut (before piece after : List α) :
    run (before ++ piece ++ after) before.length piece.length = piece := by
  rw [run, List.append_assoc, List.drop_left, List.take_left]

/-- What begins a run is the run that ends earlier. -/
theorem run_begins {piece rest : List α} (h : run stream pos n = piece ++ rest) :
    run stream pos piece.length = piece := by
  have htake : (run stream pos n).take piece.length = piece := by rw [h, List.take_left]
  have hlength : piece.length ≤ n := by
    have htotal := congrArg List.length h
    rw [length_run, List.length_append] at htotal
    omega
  rw [run, List.take_take, Nat.min_eq_left hlength] at htake
  exact htake

theorem run_rest {piece rest : List α} (h : run stream pos n = piece ++ rest) :
    run stream (pos + piece.length) (n - piece.length) = rest := by
  have hdrop : (run stream pos n).drop piece.length = rest := by rw [h, List.drop_left]
  rw [run, List.drop_take, List.drop_drop] at hdrop
  exact hdrop

section Shares

variable {shares : List (List α)} {share : List α} {i j : Nat}

/-- Where a share starts, of those a stream is cut into from its front. -/
def start (shares : List (List α)) (i : Nat) : Nat := (shares.take i).flatten.length

theorem start_succ (hi : shares[i]? = some share) : start shares (i + 1) = start shares i + share.length := by
  rw [start, start, List.take_add_one, hi, List.flatten_append, List.length_append]
  simp

theorem take_between (shares : List (List α)) (h : i ≤ j) :
    shares.take j = shares.take i ++ (shares.take j).drop i := by
  have hsplit := List.take_append_drop i (shares.take j)
  rw [List.take_take, Nat.min_eq_left h] at hsplit
  exact hsplit.symm

theorem between_cons {β : Type} {items : List β} {item : β} (hi : items[i]? = some item) (h : i < j) :
    (items.take j).drop i = item :: (items.take j).drop (i + 1) := by
  have htake : (items.take j)[i]? = some item := by rw [List.getElem?_take_of_lt h, hi]
  obtain ⟨hlt, hget⟩ := List.getElem?_eq_some_iff.1 htake
  rw [List.drop_eq_getElem_cons hlt, hget]

theorem start_between (shares : List (List α)) (h : i ≤ j) :
    start shares j = start shares i + ((shares.take j).drop i).flatten.length := by
  rw [start, start, take_between shares h, List.flatten_append, List.length_append, ← take_between shares h]

theorem start_mono (shares : List (List α)) (h : i ≤ j) : start shares i ≤ start shares j := by
  rw [start_between shares h]
  omega

/-- What lies between the starts of two shares is the shares between them. -/
theorem run_between (shares : List (List α)) (rest : List α) (h : i ≤ j) :
    run (shares.flatten ++ rest) (start shares i) (start shares j - start shares i) =
      ((shares.take j).drop i).flatten := by
  have hstream : shares.flatten ++ rest =
      (shares.take i).flatten ++ ((shares.take j).drop i).flatten ++ ((shares.drop j).flatten ++ rest) := by
    rw [← List.flatten_append, ← take_between shares h, ← List.append_assoc, ← List.flatten_append,
      List.take_append_drop]
  have hlength : start shares j - start shares i = ((shares.take j).drop i).flatten.length := by
    rw [start_between shares h, Nat.add_sub_cancel_left]
  rw [hstream, hlength]
  exact run_cut _ _ _

end Shares

end Window
