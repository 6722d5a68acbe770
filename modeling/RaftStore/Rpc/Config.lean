import RaftStore.Model.Config
import RaftStore.Lib.Cutting
import RaftStore.Lib.Narrowing

namespace RaftStore

/-!
# The grammar of the configuration file

A line gives its key the value that follows the first `=`, both without the spaces at their ends,
and the first line of a key counts.  The loader reads pieces of 511 bytes, and takes each for a
line; and it keeps the spaces of a value that consists of spaces, if a newline ends the piece.

* `contributes`, `keyOf`, `valueOf`, `grammar` — the grammar.
* `MprpcConfig.trim_eq`, `parseLine_ended`, `parseLine_open` — what the loader makes of a piece.
* `chunks`, `readLoop_eq` — what the calls of `fgets` return, and the loop over it.
* `load_eq_grammar_iff` — exactly when the loader accepts the grammar.
-/

/-! ## Strings -/

section strings

variable {s a l : Bytes} {c : UInt8} {n : ℕ}

/-- A short length is the same `int`. -/
theorem toInt_of_lt (h : n < 2 ^ 31) : toInt n = n :=
  bmod_eq_of_lt (Int.natCast_nonneg n) (by omega)

/-- `npos` is -1 as an `int`. -/
theorem toInt_npos : toInt npos = -1 := by decide

/-- A length that is an `int` again is the same `size_t`. -/
theorem toUInt64_natCast (h : n < 2 ^ 64) : toUInt64 (n : ℤ) = n := by
  rw [toUInt64]
  omega

/-- The first match lies behind what does not match. -/
theorem findIdx?_append_cons {q : UInt8 → Bool} (ha : ∀ x ∈ a, q x = false) (hc : q c = true)
    (l : Bytes) : (a ++ c :: l).findIdx? q = some a.length := by
  induction a with
  | nil => simp [List.findIdx?_cons, hc]
  | cons x a ih =>
    obtain ⟨hx, ha⟩ := List.forall_mem_cons.mp ha
    simp [List.findIdx?_cons, hx, ih ha]

/-- Nothing else is found in a text of one character. -/
theorem findFirstNotOf_all (h : ∀ x ∈ s, x = c) : findFirstNotOf c s = npos := by
  rw [findFirstNotOf, List.findIdx?_eq_none_iff.mpr]
  intro x hx
  simp [h x hx]

/-- The first other character lies behind the run of the one. -/
theorem findFirstNotOf_append {d : UInt8} (ha : ∀ x ∈ a, x = c) (hd : d ≠ c) (l : Bytes) :
    findFirstNotOf c (a ++ d :: l) = a.length := by
  rw [findFirstNotOf, findIdx?_append_cons (fun x hx => by simp [ha x hx]) (by simp [hd])]

/-- Nothing else is found from the right either. -/
theorem findLastNotOf_all (h : ∀ x ∈ s, x = c) : findLastNotOf c s = npos := by
  rw [findLastNotOf, List.findIdx?_eq_none_iff.mpr]
  intro x hx
  simp [h x (List.mem_reverse.mp hx)]

/-- The last other character lies before the run of the one. -/
theorem findLastNotOf_append {d : UInt8} (hl : ∀ x ∈ l, x = c) (hd : d ≠ c) (a : Bytes) :
    findLastNotOf c (a ++ d :: l) = a.length := by
  have hreverse : (a ++ d :: l).reverse = l.reverse ++ d :: a.reverse := by simp
  rw [findLastNotOf, hreverse, findIdx?_append_cons
    (fun x hx => by simp [hl x (List.mem_reverse.mp hx)]) (by simp [hd])]
  simp only [List.length_append, List.length_cons, List.length_reverse]
  omega

/-- The character is found behind the part without it. -/
theorem findChar_append (ha : c ∉ a) (pre l : Bytes) :
    findChar c (pre ++ (a ++ c :: l)) pre.length = pre.length + a.length := by
  have hother : ∀ x ∈ a, (x == c) = false := fun x hx => beq_false_of_ne fun h => ha (h ▸ hx)
  have hidx : (a ++ c :: l).findIdx? (· == c) = some a.length :=
    findIdx?_append_cons hother (beq_self_eq_true c) l
  rw [findChar, List.drop_left, hidx]

/-- A character that is not in the rest is not found. -/
theorem findChar_of_not_mem (h : c ∉ s.drop n) : findChar c s n = npos := by
  rw [findChar, List.findIdx?_eq_none_iff.mpr]
  intro x hx
  exact beq_false_of_ne fun hxc => h (hxc ▸ hx)

end strings

/-! ## The grammar -/

/-- Without the spaces at both ends. -/
abbrev trimmed (s : Bytes) : Bytes := strip (· == spaceChar) s

/-- There are only spaces. -/
def blank (s : Bytes) : Bool := s.all (· == spaceChar)

/-- A text is blank iff it has only blanks. -/
theorem blank_iff {s : Bytes} : blank s = true ↔ ∀ x ∈ s, x = spaceChar := by
  simp [blank]

/-- The line is no comment, and has a `=`. -/
def contributes (line : Bytes) : Bool :=
  (line.dropWhile (· == spaceChar)).head? != some hashChar && line.contains equalsChar

/-- The part before the first `=`, without the spaces at its ends. -/
def keyOf (line : Bytes) : Bytes := trimmed (line.takeWhile (· != equalsChar))

/-- The part after the first `=`. -/
def restOf (line : Bytes) : Bytes := (line.dropWhile (· != equalsChar)).tail

/-- The same without the spaces at its ends. -/
def valueOf (line : Bytes) : Bytes := trimmed (restOf line)

/-- The line gives a value to the key. -/
def assigns (key line : Bytes) : Bool := contributes line && keyOf line == key

/-- The value of the first line that gives one to the key. -/
def grammar (lines : List Bytes) (key : Bytes) : Bytes :=
  ((lines.find? (assigns key)).map valueOf).getD []

/-- The line as its two ends, its key with spaces around it, and its value with spaces around it. -/
theorem takeWhile_append_equals {a : Bytes} (ha : equalsChar ∉ a) (l : Bytes) :
    (a ++ equalsChar :: l).takeWhile (· != equalsChar) = a ∧
      (a ++ equalsChar :: l).dropWhile (· != equalsChar) = equalsChar :: l := by
  have hall : ∀ x ∈ a, (x != equalsChar) = true := fun x hx =>
    bne_iff_ne.mpr fun h => ha (h ▸ hx)
  constructor
  · rw [List.takeWhile_append_of_pos hall]
    simp
  · rw [dropWhile_append_left hall]
    simp

/-- The key is what stands before the first `=`, trimmed. -/
theorem keyOf_eq {a : Bytes} (ha : equalsChar ∉ a) (l : Bytes) :
    keyOf (a ++ equalsChar :: l) = trimmed a := by
  rw [keyOf, (takeWhile_append_equals ha l).1]

/-- The rest is what stands behind the first `=`. -/
theorem restOf_eq {a : Bytes} (ha : equalsChar ∉ a) (l : Bytes) :
    restOf (a ++ equalsChar :: l) = l := by
  rw [restOf, (takeWhile_append_equals ha l).2]
  rfl

namespace MprpcConfig

variable {src buf k r : Bytes}

/-! ## One piece -/

/-- `Trim` leaves a string of spaces as it is. -/
theorem trim_of_spaces (h : ∀ x ∈ src, x = spaceChar) : trim src = src := by
  have hfirst : toInt (findFirstNotOf spaceChar src) = -1 := by
    rw [findFirstNotOf_all h, toInt_npos]
  have hlast : toInt (findLastNotOf spaceChar src) = -1 := by
    rw [findLastNotOf_all h, toInt_npos]
  simp only [trim, hfirst, hlast, ne_eq, not_true_eq_false, if_false]

/-- `Trim` takes the blanks at both ends off. -/
theorem trim_append {a m b : Bytes} (ha : ∀ x ∈ a, x = spaceChar) (hb : ∀ x ∈ b, x = spaceChar)
    (hm : Tight (· == spaceChar) m) (hne : m ≠ []) (hlen : (a ++ (m ++ b)).length < 2 ^ 31) :
    trim (a ++ (m ++ b)) = m := by
  simp only [List.length_append] at hlen
  obtain ⟨c, m', rfl⟩ := List.exists_cons_of_ne_nil hne
  have hc : c ≠ spaceChar := beq_eq_false_iff_ne.mp (hm.1 c rfl)
  have hfirst : toInt (findFirstNotOf spaceChar (a ++ (c :: m' ++ b))) = a.length := by
    rw [List.cons_append, findFirstNotOf_append ha hc]
    exact toInt_of_lt (by omega)
  have hcut : substr (a ++ (c :: m' ++ b)) (toUInt64 a.length)
      (toUInt64 ((a ++ (c :: m' ++ b)).length - a.length)) = c :: m' ++ b := by
    have hcount : ((a ++ (c :: m' ++ b)).length : ℤ) - a.length =
        ((c :: m' ++ b).length : ℕ) := by
      simp only [List.length_append]
      omega
    rw [hcount, toUInt64_natCast (by omega), toUInt64_natCast (by simp at hlen ⊢; omega), substr,
      List.drop_left, List.take_length]
  -- the last character that is no space
  obtain ⟨m, d, hmd⟩ : ∃ m d, c :: m' = m ++ [d] :=
    ⟨_, _, (List.dropLast_append_getLast (List.cons_ne_nil c m')).symm⟩
  have hd : d ≠ spaceChar := by
    refine beq_eq_false_iff_ne.mp (hm.2 d ?_)
    rw [hmd]
    simp
  have hlast : toInt (findLastNotOf spaceChar (c :: m' ++ b)) = m.length := by
    have hsplit : c :: m' ++ b = m ++ d :: b := by
      rw [hmd]
      simp
    have hlength := congrArg List.length hsplit
    simp only [List.length_append, List.length_cons] at hlength hlen
    rw [hsplit, findLastNotOf_append hb hd]
    exact toInt_of_lt (by omega)
  have htake : substr (c :: m' ++ b) 0 (toUInt64 ((m.length : ℤ) + 1)) = c :: m' := by
    have hcount : (m.length : ℤ) + 1 = ((c :: m').length : ℕ) := by
      rw [hmd]
      simp
    rw [hcount, toUInt64_natCast (by omega), substr, List.drop_zero, List.take_left]
  have hne_first : (a.length : ℤ) ≠ -1 := by omega
  have hne_last : (m.length : ℤ) ≠ -1 := by omega
  simp only [trim, hfirst, if_pos hne_first, hcut, hlast, if_pos hne_last, htake]

/-- `Trim`, of strings that are not too long for an `int`. -/
theorem trim_eq (hlen : src.length < 2 ^ 31) :
    trim src = if blank src then src else trimmed src := by
  split
  case isTrue h => exact trim_of_spaces (blank_iff.mp h)
  case isFalse h =>
    rw [blank_iff] at h
    obtain ⟨a, b, hsrc, ha, hb, hm⟩ := exists_strip (· == spaceChar) src
    have hne : trimmed src ≠ [] := by
      intro hnil
      exact h fun x hx => beq_iff_eq.mp (strip_eq_nil_iff.mp hnil x hx)
    rw [hsrc] at hlen
    have htrim := trim_append (fun x hx => beq_iff_eq.mp (ha x hx))
      (fun x hx => beq_iff_eq.mp (hb x hx)) hm hne hlen
    rwa [← hsrc] at htrim

/-- If the ends of a string are no spaces, unless it is empty. -/
theorem trim_of_head (hlen : src.length < 2 ^ 31) (h : ∀ x ∈ src.head?, x ≠ spaceChar) :
    trim src = trimmed src := by
  rw [trim_eq hlen]
  split
  case isTrue hall =>
    cases src with
    | nil => rfl
    | cons c src => exact absurd (blank_iff.mp hall c (List.mem_cons_self ..)) (h c rfl)
  case isFalse => rfl

/-- A comment, or a line without `=`, assigns nothing. -/
theorem parseLine_eq_none {q : Bytes} (hq : trim (cString buf) = q)
    (h : q.head? = some hashChar ∨ equalsChar ∉ q) : parseLine buf = none := by
  simp only [parseLine, hq]
  rcases h with h | h
  · rw [if_pos (.inl h)]
  · have hidx : toInt (findChar equalsChar q 0) = -1 := by
      rw [findChar_of_not_mem (by simpa using h), toInt_npos]
    rw [if_pos hidx, ite_self]

/-- A piece with a `=`, up to the end of the value or a newline. -/
theorem parseLine_eq_some {t : Bytes} (hq : trim (cString buf) = k ++ equalsChar :: (r ++ t))
    (ht : t = [] ∨ t = [newlineChar]) (hk : equalsChar ∉ k) (hr : newlineChar ∉ r)
    (hhash : k.head? ≠ some hashChar) (hlen : (k ++ equalsChar :: (r ++ t)).length ≤ 512) :
    parseLine buf = some (trim k, trim r) := by
  simp only [List.length_append, List.length_cons] at hlen
  have hhead : ¬((k ++ equalsChar :: (r ++ t)).head? = some hashChar ∨
      (k ++ equalsChar :: (r ++ t)).isEmpty) := by
    cases k with
    | nil => simp [equalsChar, hashChar]
    | cons c k => simpa using hhash
  have hidx : toInt (findChar equalsChar (k ++ equalsChar :: (r ++ t)) 0) = k.length := by
    have hfind := findChar_append hk [] (r ++ t)
    simp only [List.nil_append, List.length_nil, Nat.zero_add] at hfind
    rw [hfind, toInt_of_lt (by omega)]
  have hkey : substr (k ++ equalsChar :: (r ++ t)) 0 (toUInt64 k.length) = k := by
    rw [toUInt64_natCast (by omega), substr, List.drop_zero, List.take_left]
  have hdrop : (k ++ equalsChar :: (r ++ t)).drop (k.length + 1) = r ++ t := by
    have hsplit : k ++ equalsChar :: (r ++ t) = (k ++ [equalsChar]) ++ (r ++ t) := by simp
    rw [hsplit, List.drop_left' (by simp)]
  have hstart : toUInt64 ((k.length : ℤ) + 1) = k.length + 1 :=
    toUInt64_natCast (n := k.length + 1) (by omega)
  have hvalue : substr (k ++ equalsChar :: (r ++ t)) (toUInt64 ((k.length : ℤ) + 1))
      (toUInt64 (toInt (findChar newlineChar (k ++ equalsChar :: (r ++ t)) (toUInt64 k.length)) -
        k.length - 1)) = r := by
    rw [toUInt64_natCast (by omega), hstart, substr, hdrop]
    rcases ht with rfl | rfl
    · -- without a newline the count is huge
      have hnone : newlineChar ∉ (k ++ equalsChar :: (r ++ [])).drop k.length := by
        rw [List.drop_left, List.append_nil, List.mem_cons, not_or]
        exact ⟨by decide, hr⟩
      rw [findChar_of_not_mem hnone, toInt_npos, List.append_nil]
      apply List.take_of_length_le
      rw [toUInt64]
      omega
    · have hfind : findChar newlineChar (k ++ equalsChar :: (r ++ [newlineChar])) k.length =
          k.length + (r.length + 1) := by
        have hmem : newlineChar ∉ equalsChar :: r := by
          rw [List.mem_cons, not_or]
          exact ⟨by decide, hr⟩
        exact findChar_append hmem k []
      have hcount : ((k.length + (r.length + 1) : ℕ) : ℤ) - k.length - 1 = (r.length : ℕ) := by
        omega
      rw [hfind, toInt_of_lt (by omega), hcount, toUInt64_natCast (by omega), List.take_left]
  have hne : (k.length : ℤ) ≠ -1 := by omega
  simp only [parseLine, hq]
  rw [if_neg hhead, hidx, if_neg hne, hkey, hvalue]

/-- A line that contributes, from the end of the spaces at its start. -/
theorem exists_equals {line : Bytes} (h : contributes line = true) :
    ∃ a k l, line = a ++ (k ++ equalsChar :: l) ∧ (∀ x ∈ a, x = spaceChar) ∧
      (∀ x ∈ (k ++ [equalsChar]).head?, x ≠ spaceChar) ∧ equalsChar ∉ k ∧
      k.head? ≠ some hashChar ∧ keyOf line = trimmed k ∧ restOf line = l := by
  rw [contributes, Bool.and_eq_true, bne_iff_ne, List.contains_iff_mem] at h
  obtain ⟨hhash, hmem⟩ := h
  obtain ⟨a, q, rfl, ha, hhead⟩ := exists_dropWhile (· == spaceChar) line
  have hequals : equalsChar ∉ a := fun he => absurd (ha _ he) (by decide)
  obtain ⟨k, l, rfl, hk⟩ :=
    List.eq_append_cons_of_mem ((List.mem_append.mp hmem).resolve_left hequals)
  rw [dropWhile_append_left ha, dropWhile_of_head hhead] at hhash
  have hkey : equalsChar ∉ a ++ k := fun he => (List.mem_append.mp he).elim hequals hk
  have hline : a ++ (k ++ equalsChar :: l) = (a ++ k) ++ equalsChar :: l := by simp
  refine ⟨a, k, l, rfl, fun x hx => beq_iff_eq.mp (ha x hx), fun x hx => ?_, hk, ?_, ?_, ?_⟩
  · refine beq_eq_false_iff_ne.mp (hhead x ?_)
    cases k <;> exact hx
  · cases k with
    | nil => simp
    | cons c k => simpa using hhash
  · rw [hline, keyOf_eq hkey]
    exact strip_append_left ha
  · rw [hline, restOf_eq hkey]

/-- A line that does not contribute, after the spaces at its start. -/
theorem head_or_not_mem {line a q : Bytes} (h : ¬ contributes line = true) (hline : line = a ++ q)
    (ha : ∀ x ∈ a, (x == spaceChar) = true) (hhead : ∀ x ∈ q.head?, (x == spaceChar) = false) :
    q.head? = some hashChar ∨ equalsChar ∉ q := by
  by_contra hnone
  rw [not_or, not_not] at hnone
  obtain ⟨hhash, hmem⟩ := hnone
  refine h ?_
  rw [contributes, Bool.and_eq_true, bne_iff_ne, List.contains_iff_mem, hline,
    dropWhile_append_left ha, dropWhile_of_head hhead]
  exact ⟨hhash, List.mem_append_right a hmem⟩

/-- A text without a 0 byte is read whole. -/
theorem cString_of_not_mem (h : 0 ∉ buf) : cString buf = buf := by
  apply List.takeWhile_eq_self_iff.mpr
  intro x hx
  exact decide_eq_true fun h0 => h (h0 ▸ hx)

/-- A piece that ends with a newline: a value of spaces is kept. -/
theorem parseLine_ended {line : Bytes} (hnull : 0 ∉ line) (hnewline : newlineChar ∉ line)
    (hlen : line.length < 511) :
    parseLine (line ++ [newlineChar]) =
      if contributes line then
        some (keyOf line, if blank (restOf line) then restOf line else valueOf line)
      else none := by
  have hstring : cString (line ++ [newlineChar]) = line ++ [newlineChar] :=
    cString_of_not_mem fun h => (List.mem_append.mp h).elim hnull (by decide)
  -- only the spaces at the start are taken off
  have htrim : ∀ a q, line = a ++ q → (∀ x ∈ a, x = spaceChar) →
      (∀ x ∈ (q ++ [newlineChar]).head?, x ≠ spaceChar) →
      trim (cString (line ++ [newlineChar])) = q ++ [newlineChar] := by
    intro a q hline ha hhead
    have htight : Tight (· == spaceChar) (q ++ [newlineChar]) := by
      refine ⟨fun x hx => beq_eq_false_iff_ne.mpr (hhead x hx), ?_⟩
      rw [List.getLast?_concat]
      rintro x ⟨⟩
      decide
    have hlength := congrArg List.length hline
    simp only [List.length_append] at hlength
    have hall := trim_append (b := []) ha (by simp) htight (by simp) (by simp; omega)
    rw [hstring, hline, List.append_assoc]
    rwa [List.append_nil] at hall
  split
  case isTrue hcontributes =>
    obtain ⟨a, k, l, hline, ha, hhead, hk, hhash, hkey, hrest⟩ := exists_equals hcontributes
    have hq := htrim a (k ++ equalsChar :: l) hline ha (by
      intro x hx
      refine hhead x ?_
      cases k <;> exact hx)
    have hlength := congrArg List.length hline
    simp only [List.length_append, List.length_cons] at hlength
    have hnewline' : newlineChar ∉ l := fun h => hnewline (by rw [hline]; simp [h])
    rw [List.append_assoc, List.cons_append] at hq
    rw [parseLine_eq_some hq (.inr rfl) hk hnewline' hhash (by simp; omega), hkey, valueOf, hrest,
      trim_of_head (by omega), trim_eq (by omega)]
    intro x hx
    refine hhead x ?_
    cases k with
    | nil => cases hx
    | cons c k => exact hx
  case isFalse hcontributes =>
    obtain ⟨a, q, hline, ha, hhead⟩ := exists_dropWhile (· == spaceChar) line
    have hq := htrim a q hline (fun x hx => beq_iff_eq.mp (ha x hx)) (by
      intro x hx
      cases q with
      | nil =>
        obtain rfl := Option.some.inj hx
        decide
      | cons c q => exact beq_eq_false_iff_ne.mp (hhead x hx))
    refine parseLine_eq_none hq ?_
    rcases head_or_not_mem hcontributes hline ha hhead with hhash | hmem
    · left
      rw [List.head?_append, hhash]
      rfl
    · right
      rw [List.mem_append, not_or]
      exact ⟨hmem, by decide⟩

/-- A piece without a newline. -/
theorem parseLine_open {line : Bytes} (hnull : 0 ∉ line) (hnewline : newlineChar ∉ line)
    (hlen : line.length ≤ 511) :
    parseLine line = if contributes line then some (keyOf line, valueOf line) else none := by
  have hstring : cString line = line := cString_of_not_mem hnull
  split
  case isTrue hcontributes =>
    obtain ⟨a, k, l, hline, ha, hhead, hk, hhash, hkey, hrest⟩ := exists_equals hcontributes
    obtain ⟨r, b, hl, hb, hlast⟩ := exists_rdropWhile (· == spaceChar) l
    have hlength := congrArg List.length hline
    rw [hl] at hlength
    simp only [List.length_append, List.length_cons] at hlength
    -- the spaces at the end are those of the value
    have htight : Tight (· == spaceChar) (k ++ equalsChar :: r) := by
      constructor
      · intro x hx
        refine beq_eq_false_iff_ne.mpr (hhead x ?_)
        cases k <;> exact hx
      · rw [List.getLast?_append, List.getLast?_cons]
        cases hr : r.getLast? with
        | none =>
          rintro x ⟨⟩
          decide
        | some c =>
          rintro x ⟨⟩
          exact hlast _ hr
    have hq : trim (cString line) = k ++ equalsChar :: (r ++ []) := by
      have hall := trim_append ha (fun x hx => beq_iff_eq.mp (hb x hx)) htight (by simp)
        (by simp; omega)
      rw [hstring, hline, hl, List.append_nil]
      simpa using hall
    have hnewline' : newlineChar ∉ r := fun h => hnewline (by rw [hline, hl]; simp [h])
    have hvalue : trim r = trimmed l := by
      have hstrip : trimmed (r ++ b) = trimmed r := strip_append_right hb
      rw [trim_eq (by omega), hl, hstrip]
      split
      case isTrue hall =>
        -- the last character of the piece is no space
        cases hr : r.getLast? with
        | none => rw [List.getLast?_eq_none_iff.mp hr]; rfl
        | some c =>
          have hc := blank_iff.mp hall c (List.mem_of_getLast? hr)
          exact absurd (hlast c hr) (by simp [hc])
      case isFalse => rfl
    rw [parseLine_eq_some hq (.inl rfl) hk hnewline' hhash (by simp; omega), hkey, valueOf, hrest,
      hvalue, trim_of_head (by omega)]
    intro x hx
    refine hhead x ?_
    cases k with
    | nil => cases hx
    | cons c k => exact hx
  case isFalse hcontributes =>
    obtain ⟨a, b, hline, ha, hb, hm⟩ := exists_strip (· == spaceChar) line
    by_cases hne : trimmed line = []
    · have hall := strip_eq_nil_iff.mp hne
      refine parseLine_eq_none (q := line) ?_ (.inr fun h => absurd (hall _ h) (by decide))
      rw [hstring]
      exact trim_of_spaces fun x hx => beq_iff_eq.mp (hall x hx)
    · have hq : trim (cString line) = trimmed line := by
        have hall := trim_append (fun x hx => beq_iff_eq.mp (ha x hx))
          (fun x hx => beq_iff_eq.mp (hb x hx)) hm hne (by rw [← hline]; omega)
        rw [hstring]
        rwa [← hline] at hall
      refine parseLine_eq_none hq ?_
      have hhead : (trimmed line ++ b).head? = (trimmed line).head? := by
        obtain ⟨c, m, hcm⟩ := List.exists_cons_of_ne_nil hne
        rw [hcm]
        rfl
      rcases head_or_not_mem hcontributes hline ha (by rw [hhead]; exact hm.1) with hhash | hmem
      · exact .inl (hhead.symm.trans hhash)
      · exact .inr fun h => hmem (List.mem_append_left b h)

end MprpcConfig

/-! ## The pieces of a file -/

/-- What the calls of `fgets` return for the lines of a file, without the newlines: pieces, marked
    if a newline ended them. -/
def chunks : List Bytes → List (Bytes × Bool)
  | [] => []
  | [line] => (pieces 511 line).map fun piece => (piece.1, false)
  | line :: line' :: lines => pieces 511 line ++ chunks (line' :: lines)

/-- What is in the buffer. -/
def chunkText (chunk : Bytes × Bool) : Bytes :=
  if chunk.2 then chunk.1 ++ [newlineChar] else chunk.1

/-- The last chunk of a line ends in the newline. -/
theorem chunkText_true (piece : Bytes) : chunkText (piece, true) = piece ++ [newlineChar] :=
  if_pos rfl

/-- Any other chunk has no newline. -/
theorem chunkText_false (piece : Bytes) : chunkText (piece, false) = piece := if_neg (by simp)

section chunks

variable {n : ℕ} {line : Bytes} {lines : List Bytes} {chunk : Bytes × Bool}

/-- `fgets` reads a line with its newline, or as much of it as fits. -/
theorem fgets_ended (h : newlineChar ∉ line) (rest : Bytes) :
    fgets n (line ++ newlineChar :: rest) =
      if line.length < n then (line ++ [newlineChar], { rest })
      else (line.take n, { rest := line.drop n ++ newlineChar :: rest }) := by
  induction n generalizing line with
  | zero => rfl
  | succ n ih =>
    cases line with
    | nil => simp [fgets]
    | cons c line =>
      obtain ⟨hc, hline⟩ := not_or.mp (List.mem_cons.not.mp h)
      rw [List.cons_append, fgets, if_neg (Ne.symm hc), ih hline]
      simp only [List.length_cons, Nat.add_lt_add_iff_right, List.take_succ_cons,
        List.drop_succ_cons, List.cons_append]
      split <;> rfl

/-- `fgets` reads a last line without a newline, or as much of it as fits. -/
theorem fgets_open (h : newlineChar ∉ line) :
    fgets n line =
      if line.length < n then (line, { rest := [], eof := true })
      else (line.take n, { rest := line.drop n }) := by
  induction n generalizing line with
  | zero => rfl
  | succ n ih =>
    cases line with
    | nil => simp [fgets]
    | cons c line =>
      obtain ⟨hc, hline⟩ := not_or.mp (List.mem_cons.not.mp h)
      rw [fgets, if_neg (Ne.symm hc), ih hline]
      simp only [List.length_cons, Nat.add_lt_add_iff_right, List.take_succ_cons,
        List.drop_succ_cons]
      split <;> rfl

/-- A part of a line, and if a newline ended it there is room for that in the buffer. -/
structure Readable (chunk : Bytes × Bool) : Prop where
  null : 0 ∉ chunk.1
  newline : newlineChar ∉ chunk.1
  length : chunk.1.length ≤ 511
  ended : chunk.2 = true → chunk.1.length < 511

/-- The pieces of a plain line are readable. -/
theorem readable_of_mem_pieces (hnull : 0 ∉ line) (hnewline : newlineChar ∉ line)
    (h : chunk ∈ pieces 511 line) : Readable chunk where
  null hmem := hnull (mem_of_mem_pieces h hmem)
  newline hmem := hnewline (mem_of_mem_pieces h hmem)
  length := length_le_of_mem_pieces (by decide) h
  ended := length_lt_of_mem_pieces (by decide) h

/-- The chunks of plain lines are readable. -/
theorem readable_of_mem_chunks (hlines : ∀ line ∈ lines, 0 ∉ line ∧ newlineChar ∉ line)
    (h : chunk ∈ chunks lines) : Readable chunk := by
  induction lines using chunks.induct with
  | case1 => simp [chunks] at h
  | case2 line =>
    obtain ⟨hnull, hnewline⟩ := hlines line (List.mem_singleton_self line)
    rw [chunks, List.mem_map] at h
    obtain ⟨piece, hpiece, rfl⟩ := h
    have hreadable := readable_of_mem_pieces hnull hnewline hpiece
    exact ⟨hreadable.null, hreadable.newline, hreadable.length, fun h => absurd h (by simp)⟩
  | case3 line line' lines ih =>
    obtain ⟨⟨hnull, hnewline⟩, hlines⟩ := List.forall_mem_cons.mp hlines
    rw [chunks] at h
    exact (List.mem_append.mp h).elim (readable_of_mem_pieces hnull hnewline) (ih hlines)

namespace MprpcConfig

variable {config : MprpcConfig} {key : Bytes}

/-- The loop adds what `fgets` reads, and goes on. -/
theorem readLoop_of_not_eof (config : MprpcConfig) (rest : Bytes) :
    config.readLoop { rest } =
      (config.addLine (fgets 511 rest).1).readLoop (fgets 511 rest).2 := by
  rw [readLoop, if_neg Bool.false_ne_true]

/-- At the end of the file the loop stops. -/
theorem readLoop_of_eof (config : MprpcConfig) (rest : Bytes) :
    config.readLoop { rest, eof := true } = config := by
  rw [readLoop, if_pos rfl]

/-- The loop over a line that a newline ends. -/
theorem readLoop_ended (h : newlineChar ∉ line) (config : MprpcConfig) (rest : Bytes) :
    config.readLoop { rest := line ++ newlineChar :: rest } =
      (((pieces 511 line).map chunkText).foldl addLine config).readLoop { rest } := by
  induction line using pieces.induct 511 generalizing config with
  | case1 line hline =>
    have hlt : line.length < 511 := hline.resolve_right (by decide)
    rw [readLoop_of_not_eof, fgets_ended h, if_pos hlt, pieces_of_lt hlt, List.map_singleton,
      List.foldl_cons, List.foldl_nil, chunkText_true]
  | case2 line hline ih =>
    obtain ⟨hge, -⟩ := not_or.mp hline
    have hdrop : newlineChar ∉ line.drop 511 := fun hmem => h (List.mem_of_mem_drop hmem)
    rw [readLoop_of_not_eof, fgets_ended h, if_neg hge, pieces_of_le (by decide) (by omega),
      List.map_cons, List.foldl_cons, chunkText_false]
    dsimp only
    rw [ih hdrop]

/-- The loop over the last line. -/
theorem readLoop_open (h : newlineChar ∉ line) (config : MprpcConfig) :
    config.readLoop { rest := line } = ((chunks [line]).map chunkText).foldl addLine config := by
  induction line using pieces.induct 511 generalizing config with
  | case1 line hline =>
    have hlt : line.length < 511 := hline.resolve_right (by decide)
    rw [readLoop_of_not_eof, fgets_open h, if_pos hlt, readLoop_of_eof, chunks, pieces_of_lt hlt,
      List.map_singleton, List.map_singleton, List.foldl_cons, List.foldl_nil, chunkText_false]
  | case2 line hline ih =>
    obtain ⟨hge, -⟩ := not_or.mp hline
    have hdrop : newlineChar ∉ line.drop 511 := fun hmem => h (List.mem_of_mem_drop hmem)
    rw [readLoop_of_not_eof, fgets_open h, if_neg hge, chunks, pieces_of_le (by decide) (by omega),
      List.map_cons, List.map_cons, List.foldl_cons, chunkText_false]
    dsimp only
    rw [ih hdrop, chunks]

/-- **The loop over a file** adds the pieces of its lines. -/
theorem readLoop_eq (config : MprpcConfig) (content : Bytes) :
    config.readLoop { rest := content } =
      ((chunks (content.splitOn newlineChar)).map chunkText).foldl addLine config := by
  induction content using separator_induction newlineChar generalizing config with
  | last line hline => rw [readLoop_open hline, List.splitOn_eq_singleton hline]
  | cons line rest hline ih =>
    obtain ⟨line', lines, hlines⟩ :=
      List.exists_cons_of_ne_nil (List.splitOn_ne_nil newlineChar rest)
    rw [readLoop_ended hline, ih, List.splitOn_append_cons_self_of_not_mem hline, hlines,
      chunks, List.map_append, List.foldl_append]

/-- What a buffer gives to a key. -/
def given (key buf : Bytes) : Option Bytes :=
  (parseLine buf).bind fun entry => if entry.1 = key then some entry.2 else none

/-- `insert` does not replace the value of a key. -/
theorem lookup_insert (config : MprpcConfig) (entry : Bytes × Bytes) (key : Bytes) :
    (config.insert entry).configMap.lookup key =
      (config.configMap.lookup key).or (if entry.1 = key then some entry.2 else none) := by
  obtain ⟨k, v⟩ := entry
  rw [insert]
  by_cases hk : k = key
  · subst hk
    cases hlookup : config.configMap.lookup k <;> simp [hlookup]
  · have hbeq : (key == k) = false := beq_false_of_ne (Ne.symm hk)
    rw [if_neg hk, Option.or_none]
    split
    · rfl
    · rw [List.lookup_cons, hbeq]

/-- Nor does a line that may assign. -/
theorem lookup_elim (config : MprpcConfig) (entry : Option (Bytes × Bytes)) (key : Bytes) :
    (entry.elim config config.insert).configMap.lookup key =
      (config.configMap.lookup key).or
        (entry.bind fun entry => if entry.1 = key then some entry.2 else none) := by
  cases entry with
  | none => simp
  | some entry => exact lookup_insert config entry key

/-- A line gives a key its value unless the key has one. -/
theorem lookup_addLine (config : MprpcConfig) (buf key : Bytes) :
    (config.addLine buf).configMap.lookup key =
      (config.configMap.lookup key).or (given key buf) :=
  lookup_elim config (parseLine buf) key

/-- The first buffer that gives something to a key counts. -/
theorem lookup_foldl (bufs : List Bytes) (config : MprpcConfig) (key : Bytes) :
    (bufs.foldl addLine config).configMap.lookup key =
      (config.configMap.lookup key).or (bufs.findSome? (given key)) := by
  induction bufs generalizing config with
  | nil => simp
  | cons buf bufs ih =>
    rw [List.foldl_cons, ih, lookup_addLine, List.findSome?_cons, Option.or_assoc]
    cases given key buf <;> rfl

/-- What the loader keeps of a piece: the value, or all spaces of it if there is nothing else. -/
def held (chunk : Bytes × Bool) : Bytes :=
  if chunk.2 && blank (restOf chunk.1) then restOf chunk.1 else valueOf chunk.1

/-- What a readable chunk gives a key. -/
theorem given_eq (h : Readable chunk) (key : Bytes) :
    given key (chunkText chunk) = if assigns key chunk.1 then some (held chunk) else none := by
  obtain ⟨hnull, hnewline, hlen, hended⟩ := h
  obtain ⟨piece, ended⟩ := chunk
  cases ended with
  | true =>
    rw [given, chunkText_true, parseLine_ended hnull hnewline (hended rfl), assigns, held]
    by_cases hcontributes : contributes piece = true <;>
      by_cases hkey : keyOf piece = key <;> simp [hcontributes, hkey]
  | false =>
    rw [given, chunkText_false, parseLine_open hnull hnewline hlen, assigns, held]
    by_cases hcontributes : contributes piece = true <;>
      by_cases hkey : keyOf piece = key <;> simp [hcontributes, hkey]

/-- The first piece that gives a value to the key. -/
def firstChunk (content key : Bytes) : Option (Bytes × Bool) :=
  (chunks (content.splitOn newlineChar)).find? fun chunk => assigns key chunk.1

/-- The first chunk that gives a key something is the first that assigns it. -/
theorem findSome?_given {list : List (Bytes × Bool)} (h : ∀ chunk ∈ list, Readable chunk)
    (key : Bytes) :
    (list.map chunkText).findSome? (given key) =
      (list.find? fun chunk => assigns key chunk.1).map held := by
  induction list with
  | nil => rfl
  | cons chunk list ih =>
    obtain ⟨hchunk, hlist⟩ := List.forall_mem_cons.mp h
    rw [List.map_cons, List.findSome?_cons, given_eq hchunk, ih hlist, List.find?_cons]
    cases assigns key chunk.1 <;> rfl

/-- **What is loaded for a key**: the first piece that gives it a value counts. -/
theorem load_readLoop {content : Bytes} (hnull : 0 ∉ content) (key : Bytes) :
    (readLoop {} { rest := content }).load key =
      ((firstChunk content key).map held).getD [] := by
  have hreadable : ∀ chunk ∈ chunks (content.splitOn newlineChar), Readable chunk := by
    intro chunk hchunk
    refine readable_of_mem_chunks (fun line hline => ?_) hchunk
    obtain ⟨hnewline, hmem⟩ := mem_splitOn hline
    exact ⟨fun h => hnull (hmem 0 h), hnewline⟩
  rw [load, readLoop_eq, lookup_foldl, findSome?_given hreadable]
  rfl

end MprpcConfig

end chunks

/-! ## The condition -/

open MprpcConfig

/-- Newlines between the pieces of the longer lines would not change the value of any key. -/
def Uncut (content : Bytes) : Prop :=
  ∀ key, grammar ((chunks (content.splitOn newlineChar)).map Prod.fst) key =
    grammar (content.splitOn newlineChar) key

/-- No key gets its value from a piece that has nothing but spaces between `=` and a newline. -/
def Filled (content : Bytes) : Prop :=
  ∀ key, ∀ chunk ∈ firstChunk content key, chunk.2 = true → restOf chunk.1 ≠ [] →
    ¬ ∀ x ∈ restOf chunk.1, x = spaceChar

/-- If no line is longer than 511 bytes, there is nothing to cut. -/
theorem uncut_of_short {content : Bytes}
    (h : ∀ line ∈ content.splitOn newlineChar, line.length ≤ 511) : Uncut content := by
  intro key
  rw [grammar, grammar]
  congr 2
  generalize content.splitOn newlineChar = lines at h
  induction lines using chunks.induct with
  | case1 => rfl
  | case2 line =>
    rw [chunks, List.map_map]
    exact find?_pieces (by decide) (h line (List.mem_singleton_self line)) rfl
  | case3 line line' lines ih =>
    obtain ⟨hline, hlines⟩ := List.forall_mem_cons.mp h
    rw [chunks, List.map_append, List.find?_append, find?_pieces (by decide) hline rfl, ih hlines,
      ← List.find?_append, List.singleton_append]

/-- Nor are spaces kept where no newline ends the piece. -/
theorem filled_of_not_mem {content : Bytes} (h : newlineChar ∉ content) : Filled content := by
  intro key chunk hchunk hended
  have hmem := List.mem_of_find?_eq_some (Option.mem_def.mp hchunk)
  rw [List.splitOn_eq_singleton h, chunks, List.mem_map] at hmem
  obtain ⟨piece, -, rfl⟩ := hmem
  cases hended

/-- The grammar over the chunks of a file gives the value of the first chunk that assigns the key.
    -/
theorem grammar_chunks (content key : Bytes) :
    grammar ((chunks (content.splitOn newlineChar)).map Prod.fst) key =
      ((firstChunk content key).map fun chunk => valueOf chunk.1).getD [] := by
  rw [grammar, List.find?_map, Option.map_map]
  rfl

/-- A value has no spaces at its ends. -/
theorem grammar_ne_spaces (lines : List Bytes) (key : Bytes) (hne : grammar lines key ≠ []) :
    ¬ ∀ x ∈ grammar lines key, x = spaceChar := by
  intro hall
  rw [grammar] at hne hall
  cases hfind : lines.find? (assigns key) with
  | none => simp [hfind] at hne
  | some line =>
    rw [hfind] at hne hall
    obtain ⟨a, b, -, -, -, hhead, -⟩ := exists_strip (· == spaceChar) (restOf line)
    obtain ⟨c, m, hcm⟩ := List.exists_cons_of_ne_nil hne
    have hvalue : strip (· == spaceChar) (restOf line) = c :: m := hcm
    have hc : c = spaceChar := hall c (by rw [hcm]; exact List.mem_cons_self ..)
    have hnot := hhead c (by rw [hvalue]; rfl)
    simp [hc] at hnot

/-- **The loader accepts the grammar** exactly if the lines that are too long for the buffer do not
    matter, and no value consists of spaces. -/
theorem load_eq_grammar_iff {content : Bytes} (hnull : 0 ∉ content) :
    ∃ config, loadConfigFile {} (some content) = some config ∧
      ((∀ key, config.load key = grammar (content.splitOn newlineChar) key) ↔
        Uncut content ∧ Filled content) := by
  refine ⟨readLoop {} { rest := content }, rfl, ?_⟩
  rw [Uncut, Filled, ← forall_and]
  refine forall_congr' fun key => ?_
  rw [load_readLoop hnull, grammar_chunks]
  cases hfirst : firstChunk content key with
  | none => simp
  | some chunk =>
    have hfilled : (∀ chunk' ∈ some chunk, chunk'.2 = true → restOf chunk'.1 ≠ [] →
        ¬ ∀ x ∈ restOf chunk'.1, x = spaceChar) ↔
        (chunk.2 = true → restOf chunk.1 ≠ [] → ¬ ∀ x ∈ restOf chunk.1, x = spaceChar) := by simp
    rw [hfilled]
    show held chunk = _ ↔ valueOf chunk.1 = _ ∧ _
    by_cases hspaces : (chunk.2 && blank (restOf chunk.1)) = true
    · rw [held, if_pos hspaces]
      rw [Bool.and_eq_true, blank_iff] at hspaces
      obtain ⟨hended, hall⟩ := hspaces
      by_cases hrest : restOf chunk.1 = []
      · -- there is nothing after the `=`
        have hvalue : valueOf chunk.1 = restOf chunk.1 := by
          rw [valueOf, hrest]
          rfl
        rw [hvalue]
        exact (and_iff_left fun _ hne => absurd hrest hne).symm
      · refine iff_of_false (fun h => ?_) fun h => h.2 hended hrest hall
        rw [h] at hrest hall
        exact grammar_ne_spaces _ key hrest hall
    · rw [held, if_neg hspaces]
      rw [Bool.and_eq_true, blank_iff] at hspaces
      exact (and_iff_left fun hended _ hall => hspaces ⟨hended, hall⟩).symm

/-- A file with spaces around the key and before the value. -/
theorem load_eq_grammar_iff_spaces :
    ∃ config, loadConfigFile {} (some [32, 97, 32, 61, 32, 49]) = some config ∧
      config.load [97] = [49] := by
  have hnull : (0 : UInt8) ∉ [32, 97, 32, 61, 32, 49] := by decide
  obtain ⟨config, hconfig, hiff⟩ := load_eq_grammar_iff hnull
  have huncut : Uncut [32, 97, 32, 61, 32, 49] := uncut_of_short (by decide)
  refine ⟨config, hconfig, ?_⟩
  rw [hiff.mpr ⟨huncut, filled_of_not_mem (by decide)⟩ [97]]
  decide

/-- The line `a= ` and a newline: the value of `a` is a space. -/
theorem load_blank_value :
    ¬ ∀ content : Bytes, 0 ∉ content →
      ∃ config, loadConfigFile {} (some content) = some config ∧
        ∀ key, config.load key = grammar (content.splitOn newlineChar) key := by
  intro hall
  obtain ⟨config, hconfig, hload⟩ := hall [97, 61, 32, 10] (by decide)
  have hblank := hload [97]
  have hlines : [97, 61, 32, 10].splitOn newlineChar = [[97, 61, 32], []] := by decide
  have hfirst : firstChunk [97, 61, 32, 10] [97] = some ([97, 61, 32], true) := by
    rw [firstChunk, hlines, chunks, pieces_of_lt (by decide)]
    exact List.find?_cons_of_pos (by decide)
  rw [← Option.some.inj hconfig, load_readLoop (by decide), hfirst, hlines] at hblank
  exact absurd hblank (by decide)

end RaftStore
