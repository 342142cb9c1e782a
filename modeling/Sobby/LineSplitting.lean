import Sobby.ConsoleInput

/-! `split` as the inverse of joining. The loop is run with its two cursors and with what `substr`
throws, and neither the one nor the other ever gets out of the line. -/
namespace LineSplitting

open ConsoleInput
open Strings (Text)

inductive OutOfRange where
  | outOfRange
  deriving DecidableEq, Repr

/-- `std::string::substr`. Without a count the rest of the text is meant. -/
def substrOf (s : Text) (pos : ℕ) (count : Option ℕ) : Except OutOfRange Text :=
  if s.length < pos then .error .outOfRange
  else
    match count with
    | some n => .ok ((s.drop pos).take n)
    | none => .ok (s.drop pos)

/-- The loop, for as many tests of its condition as there is fuel. -/
def splitRun (line : Text) (separator : Char) :
    ℕ → ℕ → ℕ → List Text → Option (Except OutOfRange (List Text))
  | 0, _, _, _ => none
  | fuel + 1, pos, prev, res =>
    match find line separator pos with
    | some i =>
      match substrOf line prev (some (i - prev)) with
      | .error e => some (.error e)
      | .ok piece => splitRun line separator fuel (i + 1) (i + 1) (res ++ [piece])
    | none =>
      match substrOf line prev none with
      | .error e => some (.error e)
      | .ok piece => some (.ok (res ++ [piece]))

/-- Each round begins with both cursors at one place, which is the end of the line at most. -/
theorem splitRun_returns {line : Text} {separator : Char} {fuel pos : ℕ} (hpos : pos ≤ line.length)
    (hfuel : line.length - pos < fuel) (res : List Text) :
    splitRun line separator fuel pos pos res =
      some (.ok (splitLoop line separator pos pos res)) := by
  induction fuel generalizing pos res with
  | zero => omega
  | succ fuel ih =>
    have hrange : ¬ line.length < pos := by omega
    rw [splitRun, splitLoop]
    cases hfind : find line separator pos with
    | none =>
      simp only [substrOf, if_neg hrange]
      rfl
    | some i =>
      have hi := find_lt hfind
      simp only [substrOf, if_neg hrange]
      exact ih (by omega) (by omega) _

theorem separator_not_mem {line piece : Text} {separator : Char}
    (h : piece ∈ line.splitOn separator) : separator ∉ piece := by
  induction hn : line.length using Nat.strong_induction_on generalizing line with
  | _ n ih =>
    by_cases hmem : separator ∈ line
    · obtain ⟨front, rest, rfl, hfront⟩ := List.eq_append_cons_of_mem hmem
      rw [List.splitOn_append_cons_self_of_not_mem hfront] at h
      rcases List.mem_cons.mp h with rfl | h
      · exact hfront
      · have hshorter : rest.length < n := by
          rw [← hn, List.length_append, List.length_cons]
          omega
        exact ih rest.length hshorter h rfl
    · rw [List.splitOn_eq_singleton hmem, List.mem_singleton] at h
      rwa [h]

/-- The line in pieces: some there are, and joining them gives the line back. -/
structure PiecesOf (line : Text) (separator : Char) (pieces : List Text) : Prop where
  nonempty : pieces ≠ []
  apart : ∀ piece ∈ pieces, separator ∉ piece
  joined : [separator].intercalate pieces = line

theorem split_pieces (line : Text) (separator : Char) :
    PiecesOf line separator (split line separator) where
  nonempty := split_ne_nil line separator
  apart := by
    intro piece hpiece
    rw [split_eq] at hpiece
    exact separator_not_mem hpiece
  joined := by
    rw [split_eq]
    exact List.intercalate_splitOn separator

theorem PiecesOf.eq_split {line : Text} {separator : Char} {pieces : List Text}
    (h : PiecesOf line separator pieces) : split line separator = pieces := by
  rw [split_eq, ← h.joined]
  exact List.splitOn_intercalate separator h.apart h.nonempty

/-- `split` returns the pieces of every line, and any pieces at all come back from their line. -/
theorem split_inverts_join :
    (∀ (line : Text) (separator : Char),
      (∀ fuel > line.length, splitRun line separator fuel 0 0 [] =
        some (.ok (split line separator))) ∧
      split line separator ≠ [] ∧ (∀ piece ∈ split line separator, separator ∉ piece) ∧
      [separator].intercalate (split line separator) = line) ∧
    ∀ (separator : Char) (pieces : List Text), pieces ≠ [] →
      (∀ piece ∈ pieces, separator ∉ piece) →
      split ([separator].intercalate pieces) separator = pieces := by
  constructor
  · intro line separator
    have hpieces := split_pieces line separator
    refine ⟨fun fuel hfuel => ?_, hpieces.nonempty, hpieces.apart, hpieces.joined⟩
    exact splitRun_returns (Nat.zero_le _) hfuel []
  · intro separator pieces hne hapart
    have hpieces : PiecesOf ([separator].intercalate pieces) separator pieces :=
      ⟨hne, hapart, rfl⟩
    exact hpieces.eq_split

theorem spaced_users :
    split "  users help ".toList ' ' = [[], [], "users".toList, "help".toList, []] ∧
    splitRun "  users help ".toList ' ' 14 0 0 [] =
      some (.ok [[], [], "users".toList, "help".toList, []]) := by
  have hline : [' '].intercalate [[], [], "users".toList, "help".toList, []] =
      "  users help ".toList := by decide
  have hsplit := split_inverts_join.2 ' ' [[], [], "users".toList, "help".toList, []] (by simp)
    (by decide)
  rw [hline] at hsplit
  refine ⟨hsplit, ?_⟩
  rw [← hsplit]
  exact (split_inverts_join.1 _ _).1 14 (by decide)

end LineSplitting
