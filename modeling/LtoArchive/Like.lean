import LtoArchive.Basic
import Mathlib.Data.List.Infix

/-!
# Wildcard patterns

The index is searched with SQLite's `LIKE`: in `X LIKE P` without an `ESCAPE` clause, `%`
matches any sequence of characters, `_` any one character, and every other character of `P`
matches itself up to the case of ASCII letters. The retriever's name queries are globs, `*` and
`?`, which `search_files` turns into `%` and `_`. Both are `wildMatch` with their two wildcard
characters.

## Main definitions

* `wildMatch many one p s`: `s` matches the pattern `p`, in which `many` stands for any sequence
  and `one` for any one character;
* `sqlLike`: SQLite's `LIKE`; `globMatch`: a glob read up to ASCII case.

## Main results

* `sqlLike_translate`: a glob with no `%` or `_`, translated character by character, matches
  under `LIKE` exactly what it matches as a glob;
* `sqlLike_percent_append_percent`: `%p%` matches the strings that contain `p` up to ASCII case,
  when `p` has no wildcard.
-/

namespace LtoArchive

/-- The characters `cs` up to the case of ASCII letters. -/
def foldCase (cs : List Char) : List Char := cs.map Char.toLower

/-- Whether `s` matches the pattern `p` up to the case of ASCII letters, where `many` matches any
sequence of characters, `one` any one character, and every other character itself. -/
def wildMatch (many one : Char) : List Char → List Char → Bool
  | [], s => s.isEmpty
  | c :: p, s =>
    if c = many then s.tails.any (wildMatch many one p)
    else match s with
      | [] => false
      | d :: s => (c = one || c.toLower == d.toLower) && wildMatch many one p s

/-- SQLite's `s LIKE p`, with no `ESCAPE` clause and case folding of ASCII letters only. -/
def sqlLike (p s : List Char) : Bool := wildMatch '%' '_' p s

/-- A name query read as a glob up to ASCII case: `*` matches any string, `?` any one character,
and every other character, `_` and `%` included, only itself. -/
def globMatch (p s : List Char) : Bool := wildMatch '*' '?' p s

section WildMatch

variable {many one : Char}

@[simp]
theorem wildMatch_nil (s : List Char) : wildMatch many one [] s = s.isEmpty := rfl

/-- A leading `%` matches when the rest matches some suffix. -/
theorem wildMatch_many_cons_eq (p s : List Char) :
    wildMatch many one (many :: p) s = s.tails.any (wildMatch many one p) := by
  cases s <;> simp [wildMatch]

/-- A leading `%` matches exactly when the rest of the pattern matches a suffix of the text. -/
theorem wildMatch_many_cons (p s : List Char) :
    wildMatch many one (many :: p) s = true ↔ ∃ t, t <:+ s ∧ wildMatch many one p t = true := by
  simp only [wildMatch_many_cons_eq, List.any_eq_true, List.mem_tails]

/-- A pattern that starts with any character but `%` matches no empty text. -/
theorem wildMatch_cons_nil {c : Char} (hc : c ≠ many) (p : List Char) :
    wildMatch many one (c :: p) [] = false := by
  simp [wildMatch, hc]

/-- A leading `_` or letter matches one character, a letter up to ASCII case. -/
theorem wildMatch_cons_cons {c : Char} (hc : c ≠ many) (p : List Char) (d : Char) (s : List Char) :
    wildMatch many one (c :: p) (d :: s) =
      ((c = one || c.toLower == d.toLower) && wildMatch many one p s) := by
  simp [wildMatch, hc]

/-- Without wildcards, `p` followed by `many` matches the strings that begin with `p` up to
ASCII case. -/
theorem wildMatch_append_many {p : List Char} (hm : many ∉ p) (ho : one ∉ p) (s : List Char) :
    wildMatch many one (p ++ [many]) s = true ↔ ∃ a b, s = a ++ b ∧ foldCase a = foldCase p := by
  induction p generalizing s with
  | nil =>
    rw [List.nil_append, wildMatch_many_cons]
    exact ⟨fun _ => ⟨[], s, rfl, rfl⟩, fun _ => ⟨[], List.nil_suffix, rfl⟩⟩
  | cons c p ih =>
    have hcm : c ≠ many := fun h => hm (h ▸ List.mem_cons_self _ _)
    have hco : c ≠ one := fun h => ho (h ▸ List.mem_cons_self _ _)
    have ih := ih (fun h => hm (List.mem_cons_of_mem _ h)) (fun h => ho (List.mem_cons_of_mem _ h))
    cases s with
    | nil =>
      rw [List.cons_append, wildMatch_cons_nil hcm]
      simp only [Bool.false_eq_true, false_iff, not_exists, not_and]
      intro a b hab
      obtain ⟨rfl, rfl⟩ := List.append_eq_nil.1 hab.symm
      simp [foldCase]
    | cons d s =>
      rw [List.cons_append, wildMatch_cons_cons hcm]
      simp only [hco, decide_False, Bool.false_or, Bool.and_eq_true, beq_iff_eq, ih]
      constructor
      · rintro ⟨hcd, a, b, rfl, hab⟩
        refine ⟨d :: a, b, rfl, ?_⟩
        simp only [foldCase, List.map_cons] at hab ⊢
        rw [hcd, hab]
      · rintro ⟨_ | ⟨d', a⟩, b, hs, hab⟩
        · simp [foldCase] at hab
        · obtain ⟨rfl, rfl⟩ := List.cons_eq_cons.1 hs
          simp only [foldCase, List.map_cons, List.cons.injEq] at hab
          exact ⟨hab.1.symm, a, b, rfl, hab.2⟩

/-- Renaming the wildcards of a pattern that has no other occurrence of the new ones keeps what
it matches. -/
theorem wildMatch_rename {many' one' : Char} (f : Char → Char) (hmany : f many = many')
    (hone : f one = one') (hother : ∀ c, c ≠ many → c ≠ one → f c = c) {p : List Char}
    (hm : many' ∉ p) (ho : one' ∉ p) (hmo : many' ≠ one') (s : List Char) :
    wildMatch many' one' (p.map f) s = wildMatch many one p s := by
  induction p generalizing s with
  | nil => simp
  | cons c p ih =>
    have hcm' : c ≠ many' := fun h => hm (h ▸ List.mem_cons_self _ _)
    have hco' : c ≠ one' := fun h => ho (h ▸ List.mem_cons_self _ _)
    have ih := ih (fun h => hm (List.mem_cons_of_mem _ h)) (fun h => ho (List.mem_cons_of_mem _ h))
    rw [List.map_cons]
    by_cases hcm : c = many
    · subst hcm
      rw [hmany, wildMatch_many_cons_eq, wildMatch_many_cons_eq, funext ih]
    · have hfc : f c ≠ many' := by
        by_cases hco : c = one
        · subst hco; rw [hone]; exact fun h => hmo h.symm
        · rw [hother c hcm hco]; exact hcm'
      cases s with
      | nil => rw [wildMatch_cons_nil hfc, wildMatch_cons_nil hcm]
      | cons d s =>
        rw [wildMatch_cons_cons hfc, wildMatch_cons_cons hcm, ih]
        by_cases hco : c = one
        · subst hco; simp [hone]
        · rw [hother c hcm hco]
          simp [hco, hco']

end WildMatch

/-! ## The patterns the index is searched with -/

/-- The character `search_files` puts in place of a glob character: `%` for `*`, `_` for `?`. -/
def likeChar (c : Char) : Char := if c = '*' then '%' else if c = '?' then '_' else c

/-- A glob with no `%` or `_`, its `*` and `?` turned into `%` and `_`, matches under `LIKE`
exactly what it matches as a glob. -/
theorem sqlLike_translate {p : List Char} (hp : '%' ∉ p) (hu : '_' ∉ p) (s : List Char) :
    sqlLike (p.map likeChar) s = globMatch p s :=
  wildMatch_rename likeChar (by decide) (by decide)
    (fun c h1 h2 => by simp [likeChar, h1, h2]) hp hu (by decide) s

/-- `%p%` matches the strings that contain `p` up to ASCII case, when `p` has no `%` or `_`. -/
theorem sqlLike_percent_append_percent {p : List Char} (hp : '%' ∉ p) (hu : '_' ∉ p)
    (s : List Char) :
    sqlLike ('%' :: (p ++ ['%'])) s = true ↔ ∃ a b c, s = a ++ b ++ c ∧ foldCase b = foldCase p := by
  rw [sqlLike, wildMatch_many_cons]
  constructor
  · rintro ⟨t, ⟨a, rfl⟩, ht⟩
    obtain ⟨b, c, rfl, hb⟩ := (wildMatch_append_many hp hu t).1 ht
    exact ⟨a, b, c, by rw [List.append_assoc], hb⟩
  · rintro ⟨a, b, c, rfl, hb⟩
    exact ⟨b ++ c, ⟨a, by rw [List.append_assoc]⟩, (wildMatch_append_many hp hu _).2 ⟨b, c, rfl, hb⟩⟩

end LtoArchive
