import LtoArchive.Basic

/-!
# Reading the console output of the external tools

The program learns two things by scraping what an external tool prints. `get_volume_label`
runs `vol` and reads the label of the volume in the drive. `LTOBackup.run` reads the bytes the
`robocopy` call copied from its job summary, through `_parse_robocopy_summary`. This module
models both readers on the text the tool printed, with the Python string methods they use:
`str.splitlines`, `str.split`, `in` and `str.rsplit`.

## Main definitions

* `splitLines`: `str.splitlines()`;
* `afterLast`: `s.rsplit(sep, 1)[-1]`;
* `getVolumeLabel`: `get_volume_label`, on the output of `vol`.

## Main results

* `getVolumeLabel_of_first`: the label is read from the first line that passes the test, as the
  text after the last `' is '`: it is the whole label exactly when the label, after the
  separator's blank, holds no further `' is '`.
-/

namespace LtoArchive

/-! ## Python string methods -/

/-- Whether `str.splitlines` ends a line at `c`. -/
def isLineBreak (c : Char) : Bool :=
  c.toNat ∈ [10, 11, 12, 13, 28, 29, 30, 133, 8232, 8233]

/-- `str.splitlines()` on the characters `cs` after the part `cur` of the current line: `\r\n`
ends one line, and a final line break opens no empty line. -/
def splitLinesFrom : List Char → List Char → List String
  | [], cur => if cur = [] then [] else [⟨cur⟩]
  | '\r' :: '\n' :: cs, cur => ⟨cur⟩ :: splitLinesFrom cs []
  | c :: cs, cur => if isLineBreak c then ⟨cur⟩ :: splitLinesFrom cs [] else splitLinesFrom cs (cur ++ [c])

/-- `str.splitlines()`. -/
def splitLines (s : String) : List String := splitLinesFrom s.data []

/-- Python's `sub in s`. -/
def hasSubstring (s sub : String) : Bool := s.data.tails.any fun t => sub.data.isPrefixOf t

/-- The characters before the first occurrence of `p` in `cs`, or all of `cs` when there is
none. -/
def beforeFirst (p : List Char) : List Char → List Char
  | [] => []
  | c :: cs => if p.isPrefixOf (c :: cs) then [] else c :: beforeFirst p cs

/-- `s.rsplit(sep, 1)[-1]`: the text after the last occurrence of `sep`, or all of `s` when
there is none. -/
def afterLast (s sep : String) : String :=
  ⟨(beforeFirst sep.data.reverse s.data.reverse).reverse⟩

/-- `sub in s` holds when `sub` is a contiguous part of `s`. -/
theorem hasSubstring_iff (s sub : String) : hasSubstring s sub = true ↔ sub.data <:+: s.data := by
  simp only [hasSubstring, List.any_eq_true, List.mem_tails, List.isPrefixOf_iff_prefix]
  exact ⟨fun ⟨t, ht, hp⟩ => hp.isInfix.trans ht.isInfix,
    fun ⟨a, b, h⟩ => ⟨sub.data ++ b, ⟨a, by rw [← List.append_assoc, h]⟩, List.prefix_append _ _⟩⟩

/-- The part of `u ++ q ++ v` before the first `q` is `u`, when no `q` starts inside `u`. -/
theorem beforeFirst_append {q : List Char} (hq : q ≠ []) :
    ∀ {u : List Char} (v : List Char), ¬ q <:+: u ++ q.dropLast → beforeFirst q (u ++ q ++ v) = u
  | [], v, _ => by
    obtain ⟨c, cs, rfl⟩ := List.exists_cons_of_ne_nil hq
    simp [beforeFirst]
  | c :: u, v, h => by
    have hnot : ¬ q <+: c :: u ++ q ++ v := by
      intro hp
      have hpre : c :: u ++ q.dropLast <+: c :: u ++ q ++ v := by
        rw [List.append_assoc]
        exact (List.prefix_append_right_inj _).2
          ((List.dropLast_prefix q).trans (List.prefix_append q v))
      refine h (List.prefix_of_prefix_length_le hp hpre ?_).isInfix
      have := List.length_pos.2 hq
      simp only [List.length_cons, List.length_append, List.length_dropLast]
      omega
    rw [List.cons_append, List.cons_append, beforeFirst, if_neg (by simpa using hnot),
      beforeFirst_append hq v fun hi => h (hi.trans (List.infix_cons (List.infix_refl _)))]

/-- The text after the last `sep` of `x ++ sep ++ l` is `l`, when no `sep` ends inside `l`. -/
theorem afterLast_append {x sep l : String} (hsep : sep ≠ "")
    (hl : ¬ sep.data <:+: sep.data.tail ++ l.data) : afterLast (x ++ sep ++ l) sep = l := by
  have hq : sep.data.reverse ≠ [] := by simpa [String.ext_iff] using hsep
  have hrev : (x ++ sep ++ l).data.reverse = l.data.reverse ++ sep.data.reverse ++ x.data.reverse := by
    simp [String.data_append]
  rw [afterLast, hrev, beforeFirst_append hq, List.reverse_reverse]
  intro hi
  refine hl ?_
  have := List.reverse_infix.2 hi
  rwa [List.reverse_append, List.reverse_reverse, List.dropLast_reverse, List.reverse_reverse,
    List.reverse_reverse] at this

/-! ## `get_volume_label` -/

/-- The test `get_volume_label` makes of each stripped line. -/
def isVolumeLine (line : String) : Bool :=
  startsWith (pyLower line) "volume in drive" && hasSubstring line " is "

/-- `get_volume_label(drive_path)`, given what `vol` printed: the text after the last `' is '` of
the first stripped line that starts with `volume in drive` up to case and holds an `' is '`,
itself stripped. -/
def getVolumeLabel (stdout : String) : Option String :=
  ((splitLines stdout).map pyStrip).findSome? fun line =>
    if isVolumeLine line then some (pyStrip (afterLast line " is ")) else none

/-- When the first stripped line that passes the test is `Volume in drive X is l`, and `l` holds
no `' is '` after the separator's blank, `get_volume_label` returns `l` stripped. -/
theorem getVolumeLabel_of_first {out X l : String} {pre post : List String}
    (hlines : (splitLines out).map pyStrip = pre ++ ("Volume in drive " ++ X ++ " is " ++ l) :: post)
    (hpre : ∀ line ∈ pre, isVolumeLine line = false)
    (hl : hasSubstring (" " ++ l) " is " = false) :
    getVolumeLabel out = some (pyStrip l) := by
  have hnone : pre.findSome? (fun line =>
      if isVolumeLine line then some (pyStrip (afterLast line " is ")) else none) = none :=
    List.findSome?_eq_none_iff.2 fun line h => by rw [hpre line h, if_neg Bool.false_ne_true]
  have hsep : ¬ " is ".data <:+: (" is ".data.tail ++ l.data) := by
    intro h
    rw [← Bool.not_eq_true, hasSubstring_iff] at hl
    refine hl ?_
    simp only [String.data_append] at h ⊢
    rcases List.infix_cons_iff.1 h with h | h
    · simp at h
    rcases List.infix_cons_iff.1 h with h | h
    · simp at h
    exact h
  have hline : isVolumeLine ("Volume in drive " ++ X ++ " is " ++ l) = true := by
    simp only [isVolumeLine, Bool.and_eq_true]
    refine ⟨?_, (hasSubstring_iff _ _).2 ⟨("Volume in drive " ++ X).data, l.data, ?_⟩⟩
    · simp [startsWith, pyLower, String.data_append]
    · simp [String.data_append]
  rw [getVolumeLabel, hlines, List.findSome?_append, hnone, Option.none_or, List.findSome?_cons,
    if_pos hline, afterLast_append (by decide) hsep]

/-- Output that opens with an empty line, with the label after two blanks, reads the label
stripped. -/
theorem getVolumeLabel_of_first_padded :
    (splitLines "\r\n Volume in drive D is  ARCHIVE01 \r\n Volume Serial Number is 5C3E-1A2B\r\n").map
        pyStrip = [""] ++ ("Volume in drive " ++ "D" ++ " is " ++ " ARCHIVE01") ::
          ["Volume Serial Number is 5C3E-1A2B"] ∧
      (∀ line ∈ [""], isVolumeLine line = false) ∧ hasSubstring (" " ++ " ARCHIVE01") " is " = false ∧
      getVolumeLabel "\r\n Volume in drive D is  ARCHIVE01 \r\n Volume Serial Number is 5C3E-1A2B\r\n" =
        some "ARCHIVE01" := by
  have hlines : (splitLines
      "\r\n Volume in drive D is  ARCHIVE01 \r\n Volume Serial Number is 5C3E-1A2B\r\n").map pyStrip =
      [""] ++ ("Volume in drive " ++ "D" ++ " is " ++ " ARCHIVE01") ::
        ["Volume Serial Number is 5C3E-1A2B"] := by decide
  have hpre : ∀ line ∈ [""], isVolumeLine line = false := by decide
  have hl : hasSubstring (" " ++ " ARCHIVE01") " is " = false := by decide
  exact ⟨hlines, hpre, hl, (getVolumeLabel_of_first hlines hpre hl).trans (by decide)⟩

/-- A label that holds `' is '` is cut at its last `' is '`: the volume `Backup is 2024` is read
as `2024`. -/
theorem getVolumeLabel_cuts_label_at_is :
    getVolumeLabel "Volume in drive D is Backup is 2024\r\nVolume Serial Number is 5C3E-1A2B\r\n" =
      some "2024" := by
  decide

end LtoArchive
