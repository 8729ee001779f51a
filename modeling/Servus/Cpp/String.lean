import Mathlib.Data.List.TakeWhile
import Mathlib.Tactic

/-!
# `std::string`: positions, searches and substrings

A `std::string` is a list of bytes. A byte is written as the `Char` of its code, so that the
literals of a model read as those of its source; no definition here looks at codes above 127
except to compare them.

* `Pos`: a position, with `none` for `std::string::npos`. `Pos.sub` and `Pos.add` are the
  `size_t` arithmetic of a source that computes with a position that may be `npos`: a
  difference that wraps, or starts from `npos`, lies past the end of every string.
* `find`, `findChar`, `findFirstOf`, `findFirstNotOf`: the searches. `find_eq_some_iff` says
  that `find` is the first index of its pattern.
* `substr`: throws `std::out_of_range` when it starts past the end. `sizeSub` is the difference
  of two lengths, which wraps below zero.
* `Exn`: what leaves a function other than its result. `assertion` is a failed `assert`, which
  no handler catches; `fuel` is a loop that the model cut short.
-/

namespace Cpp

/-- A `std::string`. -/
abbrev Str := List Char

/-- By name, so that every definition that compares strings has the same proof in it. -/
instance : LawfulBEq Str := inferInstanceAs (LawfulBEq (List Char))

/-- A position in a string; `none` is `std::string::npos`. -/
abbrev Pos := Option Nat

/-- What a function ends with when it does not return. -/
inductive Exn where
  /-- `std::invalid_argument`. -/
  | invalidArgument (what : Str)
  /-- `std::runtime_error`. -/
  | runtimeError (what : Str)
  /-- `std::out_of_range`, thrown by `substr`. -/
  | outOfRange
  /-- A failed `assert`. -/
  | assertion
  /-- The model's loop ran out of fuel. -/
  | fuel
  deriving DecidableEq, Repr

/-- A C++ exception, which `catch (...)` handles. -/
def Exn.isException : Exn → Bool
  | .assertion | .fuel => false
  | _ => true

/-- The result of a function that may throw. -/
abbrev Res := Except Exn

/-- `r` is the value that `spec` gives, or an exception where `spec` gives none. -/
def Meets {α : Type} (r : Res α) : Option α → Prop
  | some a => r = .ok a
  | none => ∃ e, r = .error e ∧ e.isException = true

/-- `assert(b)`. -/
def assert (b : Bool) : Res Unit := if b then .ok () else .error .assertion

theorem ok_bind {α β : Type} (a : α) (f : α → Res β) : (Except.ok a >>= f) = f a := rfl

theorem error_bind {α β : Type} (e : Exn) (f : α → Res β) :
    (Except.error e >>= f) = .error e := rfl

theorem pure_eq {α : Type} (a : α) : (pure a : Res α) = .ok a := rfl

attribute [simp] ok_bind error_bind pure_eq

namespace Pos

/-- `pos < other` as `size_t`: `npos` is the largest position. -/
def lt : Pos → Pos → Bool
  | some p, some q => p < q
  | some _, none => true
  | none, _ => false

/-- `pos - k` as the count of a `substr`: `npos - k`, and a difference that wraps below zero,
reach past every end. -/
def sub : Pos → Nat → Pos
  | some p, k => if k ≤ p then some (p - k) else none
  | none, _ => none

/-- `pos + k` for `1 ≤ k`: `npos + k` wraps to `k - 1`. -/
def add : Pos → Nat → Nat
  | some p, k => p + k
  | none, k => k - 1

@[simp] theorem sub_zero (p : Pos) : p.sub 0 = p := by cases p <;> simp [sub]

@[simp] theorem sub_none (k : Nat) : sub none k = none := rfl

end Pos

/-- `s.find(pat)`. -/
def find (pat : Str) : Str → Pos
  | [] => if pat = [] then some 0 else none
  | c :: s => if pat.isPrefixOf (c :: s) then some 0 else (find pat s).map (· + 1)

/-- `s.find(c, start)`; `s.find_first_of(c, start)` is the same. -/
def findChar (c : Char) (s : Str) (start : Nat) : Pos :=
  ((s.drop start).findIdx? (· == c)).map (· + start)

/-- `s.find_first_of(set)`. -/
def findFirstOf (set s : Str) : Pos := s.findIdx? (set.contains ·)

/-- `s.find_first_not_of(set, start)`. -/
def findFirstNotOf (set s : Str) (start : Nat) : Pos :=
  ((s.drop start).findIdx? (!set.contains ·)).map (· + start)

/-- `s.substr(start, count)`. -/
def substr (s : Str) (start : Nat) (count : Pos) : Res Str :=
  if start ≤ s.length then
    .ok (match count with
      | some n => (s.drop start).take n
      | none => s.drop start)
  else .error .outOfRange

/-- `a - b` on `size_t`, for lengths `a` and `b` that fit in it. -/
def sizeSub (a b : Nat) : Nat := (a + 2 ^ 64 - b) % 2 ^ 64

/-! ## Searches -/

/-- `s` is split at the first character that satisfies `p`, or none does. -/
theorem findIdx?_cases {α : Type*} (p : α → Bool) (s : List α) :
    (s.findIdx? p = none ∧ ∀ x ∈ s, p x = false) ∨
      ∃ a c b, s = a ++ c :: b ∧ p c = true ∧ (∀ x ∈ a, p x = false) ∧
        s.findIdx? p = some a.length := by
  induction s with
  | nil => left; simp
  | cons d s ih =>
    by_cases hd : p d = true
    · right; exact ⟨[], d, s, rfl, hd, by simp, by simp [List.findIdx?_cons, hd]⟩
    · rcases ih with ⟨hn, hall⟩ | ⟨a, c, b, rfl, hc, ha, hf⟩
      · left
        refine ⟨by simp [List.findIdx?_cons, hd, hn], fun x hx => ?_⟩
        rcases List.mem_cons.mp hx with rfl | hx
        · simpa using hd
        · exact hall x hx
      · right
        refine ⟨d :: a, c, b, rfl, hc, fun x hx => ?_, by simp [List.findIdx?_cons, hd, hf]⟩
        rcases List.mem_cons.mp hx with rfl | hx
        · simpa using hd
        · exact ha x hx

/-- A character that does not occur stops no search for it. -/
theorem all_ne_of_notMem {α : Type*} [BEq α] [LawfulBEq α] {s : List α} {c : α} (h : c ∉ s) :
    ∀ x ∈ s, (x != c) = true := by
  intro x hx
  simpa using fun e : x = c => h (e ▸ hx)

/-- The longest prefix of `a ++ c :: b` without `c`'s kind is `a`. -/
theorem takeWhile_split {α : Type*} {q : α → Bool} {a b : List α} {c : α}
    (ha : ∀ x ∈ a, q x = true) (hc : q c = false) : (a ++ c :: b).takeWhile q = a := by
  rw [List.takeWhile_append_of_pos ha, List.takeWhile_cons]
  simp [hc]

theorem dropWhile_split {α : Type*} {q : α → Bool} {a b : List α} {c : α}
    (ha : ∀ x ∈ a, q x = true) (hc : q c = false) : (a ++ c :: b).dropWhile q = c :: b := by
  rw [List.dropWhile_append_of_pos ha, List.dropWhile_cons]
  simp [hc]

/-- No piece of a split string has the separator. -/
theorem notMem_of_mem_splitOn {α : Type*} [BEq α] [LawfulBEq α] {c : α} {s piece : List α}
    (h : piece ∈ s.splitOn c) : c ∉ piece := by
  induction s generalizing piece with
  | nil =>
    obtain rfl : piece = [] := by simpa using h
    simp
  | cons d s ih =>
    rw [List.splitOn_cons_eq_if_modifyHead] at h
    split at h
    · rcases List.mem_cons.mp h with rfl | h
      · simp
      · exact ih h
    · rename_i hd
      obtain ⟨first, rest, hs⟩ := List.exists_cons_of_ne_nil (List.splitOn_ne_nil c s)
      rw [hs] at h ih
      rcases List.mem_cons.mp h with rfl | h
      · have hne : c ≠ d := fun e => hd (by simp [e])
        simp [hne, ih List.mem_cons_self]
      · exact ih (List.mem_cons_of_mem _ h)

/-- The elements of a joined list, apart from the separator, are those of its pieces. -/
theorem mem_intercalate_iff {α : Type*} {x c : α} (hne : c ≠ x) {pieces : List (List α)} :
    c ∈ List.intercalate [x] pieces ↔ ∃ piece ∈ pieces, c ∈ piece := by
  induction pieces with
  | nil => simp
  | cons p pieces ih =>
    cases pieces with
    | nil => simp
    | cons q pieces =>
      rw [List.intercalate_cons_cons]
      simp [ih, hne]

/-- `findChar` splits the string at the first `c`, or there is none. -/
theorem findChar_cases (c : Char) (s : Str) :
    (findChar c s 0 = none ∧ c ∉ s) ∨
      ∃ a b, s = a ++ c :: b ∧ c ∉ a ∧ findChar c s 0 = some a.length := by
  simp only [findChar, List.drop_zero, Nat.add_zero, Option.map_id']
  rcases findIdx?_cases (· == c) s with ⟨hn, hall⟩ | ⟨a, d, b, rfl, hd, ha, hf⟩
  · exact .inl ⟨hn, fun hc => by simpa using hall c hc⟩
  · obtain rfl : d = c := by simpa using hd
    exact .inr ⟨a, b, rfl, fun hc => by simpa using ha d hc, hf⟩

/-- A search from behind a prefix is a search in the rest. -/
theorem findChar_append (c : Char) (a b : Str) :
    findChar c (a ++ b) a.length = (findChar c b 0).map (· + a.length) := by
  simp [findChar]

/-- `findFirstOf` splits the string at the first character of `set`, or there is none. -/
theorem findFirstOf_cases (set s : Str) :
    (findFirstOf set s = none ∧ ∀ x ∈ s, x ∉ set) ∨
      ∃ a c b, s = a ++ c :: b ∧ c ∈ set ∧ (∀ x ∈ a, x ∉ set) ∧
        findFirstOf set s = some a.length := by
  rcases findIdx?_cases (set.contains ·) s with ⟨hn, hall⟩ | ⟨a, c, b, rfl, hc, ha, hf⟩
  · exact .inl ⟨hn, fun x hx => by simpa using hall x hx⟩
  · exact .inr ⟨a, c, b, rfl, by simpa using hc, fun x hx => by simpa using ha x hx, hf⟩

theorem lt_findFirstOf_iff {set s : Str} {p : Nat} :
    Pos.lt (findFirstOf set s) (some p) = true ↔ ∃ c ∈ s.take p, c ∈ set := by
  rcases findFirstOf_cases set s with ⟨hn, hall⟩ | ⟨a, c, b, rfl, hc, ha, hf⟩
  · rw [hn]
    refine ⟨fun h => by simp [Pos.lt] at h, fun ⟨c, hc, hs⟩ => ?_⟩
    exact absurd hs (hall c (List.mem_of_mem_take hc))
  · rw [hf]
    simp only [Pos.lt, decide_eq_true_eq]
    constructor
    · intro hlt
      refine ⟨c, ?_, hc⟩
      rw [List.take_append, List.mem_append]
      right
      rw [show p - a.length = (p - a.length - 1) + 1 by omega]
      simp
    · rintro ⟨d, hd, hset⟩
      by_contra hle
      rw [List.take_append_of_le_length (by omega)] at hd
      exact ha d (List.mem_of_mem_take hd) hset

/-- `find` gives the first index of its pattern. -/
theorem find_eq_some_iff {pat s : Str} {p : Nat} :
    find pat s = some p ↔ pat <+: s.drop p ∧ p ≤ s.length ∧ ∀ q < p, ¬ pat <+: s.drop q := by
  induction s generalizing p with
  | nil =>
    by_cases h : pat = []
    · subst h
      simp only [find, ↓reduceIte, Option.some.injEq, List.drop_nil, List.nil_prefix, true_and,
        not_true_eq_false, imp_false, not_lt, List.length_nil]
      constructor
      · rintro rfl; simp
      · rintro ⟨h, -⟩; omega
    · simp [find, h]
  | cons c s ih =>
    by_cases hp : pat.isPrefixOf (c :: s) = true
    · simp only [find, hp, ↓reduceIte, Option.some.injEq]
      rw [List.isPrefixOf_iff_prefix] at hp
      constructor
      · rintro rfl; exact ⟨hp, by simp, by simp⟩
      · rintro ⟨-, -, hq⟩
        by_contra hne
        exact hq 0 (by omega) hp
    · have hp' : ¬ pat <+: c :: s := by rwa [List.isPrefixOf_iff_prefix] at hp
      simp only [find, hp, Bool.false_eq_true, ↓reduceIte, Option.map_eq_some_iff]
      constructor
      · rintro ⟨q, hq, rfl⟩
        obtain ⟨h1, h2, h3⟩ := ih.mp hq
        refine ⟨h1, by simpa using h2, fun r hr => ?_⟩
        cases r with
        | zero => exact hp'
        | succ r => exact h3 r (by omega)
      · rintro ⟨h1, h2, h3⟩
        cases p with
        | zero => exact absurd h1 hp'
        | succ p =>
          refine ⟨p, ih.mpr ⟨h1, by simpa using h2, fun q hq => h3 (q + 1) (by omega)⟩, rfl⟩

/-! ## Sizes -/

theorem sizeSub_of_le {a b : Nat} (h : b ≤ a) (ha : a < 2 ^ 64) : sizeSub a b = a - b := by
  rw [sizeSub, show a + 2 ^ 64 - b = a - b + 2 ^ 64 by omega, Nat.add_mod_right,
    Nat.mod_eq_of_lt (by omega)]

/-- A difference that wraps lies past the minuend. -/
theorem lt_sizeSub {a b : Nat} (h : a < b) (hb : b < 2 ^ 64) : a < sizeSub a b := by
  rw [sizeSub, Nat.mod_eq_of_lt (by omega)]
  omega

/-! ## Substrings -/

@[simp] theorem substr_zero_none (s : Str) : substr s 0 none = .ok s := by simp [substr]

theorem substr_prefix (a b : Str) : substr (a ++ b) 0 (some a.length) = .ok a := by
  simp [substr]

/-- A substring behind a prefix is one of the rest. -/
theorem substr_append_add (a b : Str) (k : Nat) (count : Pos) :
    substr (a ++ b) (a.length + k) count = substr b k count := by
  have hd : (a ++ b).drop (a.length + k) = b.drop k := by
    rw [List.drop_append, List.drop_of_length_le (by omega), Nat.add_sub_cancel_left,
      List.nil_append]
  simp [substr, hd]

theorem substr_suffix_cons (a b : Str) (c : Char) :
    substr (a ++ c :: b) (a.length + 1) none = .ok b := by
  simp [substr]

end Cpp
