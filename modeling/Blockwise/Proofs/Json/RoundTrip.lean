import Blockwise.Json.Printer
import Blockwise.Json.Reader

/-!
# Reading back what was written

A value that is written reads back as itself, whatever follows it in the text.  The readers are
taken one at a time: strings by their escapes, numbers by their digits, then values by the way
they nest.
-/

namespace Blockwise
namespace Json
namespace Reader

/-- A reader's outcome is the result, with the rest of the text still to be read. -/
def Yields {α : Type} {n : Nat} (outcome : Option (Read α n)) (result : α)
    (rest : List Char) : Prop :=
  ∃ within, outcome = some ⟨result, rest, within⟩

section Combined

variable {α β : Type} {m n : Nat} {outcome : Option (Read α m)} {result : α} {rest : List Char}

theorem yields_some {r : Read α m} (hresult : r.result = result) (hrest : r.rest = rest) :
    Yields (some r) result rest := by
  subst hresult hrest
  exact ⟨r.within, rfl⟩

theorem Yields.bind {next : Read α m → Option (Read β n)} {final : β} {after : List Char}
    (h : Yields outcome result rest)
    (hnext : ∀ within, Yields (next ⟨result, rest, within⟩) final after) :
    Yields (outcome >>= next) final after := by
  rcases h with ⟨within, rfl⟩
  exact hnext within

theorem Yields.map (f : α → β) (hle : m ≤ n) (h : Yields outcome result rest) :
    Yields (outcome >>= fun r => pure ((r.map f).weaken hle)) (f result) rest :=
  h.bind fun _ => yields_some rfl rfl

end Combined

/-!
# Strings

A character is written as a backslash and a letter, by its code, or as it is.  None is a surrogate,
so the codes are read one by one.
-/

variable {cs rest : List Char}

theorem hexValue?_hexDigit {n : Nat} (hn : n < 16) : hexValue? (hexDigit n) = some n := by
  have hall : ∀ n < 16, hexValue? (hexDigit n) = some n := by decide
  exact hall n hn

theorem hexCode?_hexDigit {code : Nat} (hcode : code < 0x20) :
    hexCode? '0' '0' (hexDigit (code / 16)) (hexDigit (code % 16)) = some code := by
  have hzero : hexValue? '0' = some 0 := rfl
  have hhigh : hexValue? (hexDigit (code / 16)) = some (code / 16) :=
    hexValue?_hexDigit (by omega)
  have hlow : hexValue? (hexDigit (code % 16)) = some (code % 16) :=
    hexValue?_hexDigit (by omega)
  simp only [hexCode?, hzero, hhigh, hlow, Option.bind_eq_bind, Option.bind_some, Option.pure_def]
  congr 1
  omega

theorem escape_cases (c : Char) :
    (∃ e, escaped? e = some c ∧ escape c = ['\\', e]) ∨
      (c.toNat < 0x20 ∧
        escape c = ['\\', 'u', '0', '0', hexDigit (c.toNat / 16), hexDigit (c.toNat % 16)]) ∨
      (¬ c.toNat < 0x20 ∧ c ≠ '"' ∧ c ≠ '\\' ∧ escape c = [c]) := by
  fun_cases escape c
  case case8 hcontrol => exact .inr (.inl ⟨hcontrol, rfl⟩)
  case case9 hquote hslash _ _ _ _ _ hcontrol =>
    exact .inr (.inr ⟨hcontrol, hquote, hslash, rfl⟩)
  all_goals exact .inl ⟨_, rfl, rfl⟩

theorem codes_escape (c : Char) {ns : List Nat} (h : Yields (codes cs) ns rest) :
    Yields (codes (escape c ++ cs)) (c.toNat :: ns) rest := by
  rcases escape_cases c with
    ⟨e, he, hescape⟩ | ⟨hcontrol, hescape⟩ | ⟨hplain, hquote, hslash, hescape⟩
  · have hu : e ≠ 'u' := by
      intro hgiven
      subst hgiven
      cases he
    rw [hescape, List.cons_append, List.cons_append, List.nil_append,
      codes.eq_3 e cs (fun _ _ _ _ _ he => absurd he hu), he]
    exact h.map _ _
  · rw [hescape]
    simp only [List.cons_append, List.nil_append]
    rw [codes.eq_2, hexCode?_hexDigit hcontrol]
    exact h.map _ _
  · rw [hescape, List.cons_append, List.nil_append,
      codes.eq_4 c cs hquote (fun _ _ _ _ _ hc => absurd hc hslash)
        (fun _ _ hc => absurd hc hslash),
      if_neg (not_or.mpr ⟨hslash, hplain⟩)]
    exact h.map _ _

theorem codes_flatMap_escape (chars rest : List Char) :
    Yields (codes (chars.flatMap escape ++ '"' :: rest)) (chars.map Char.toNat) rest := by
  induction chars with
  | nil =>
      rw [List.flatMap_nil, List.nil_append, codes.eq_1]
      exact yields_some rfl rfl
  | cons c chars ih =>
      rw [List.flatMap_cons, List.append_assoc]
      exact codes_escape c ih

theorem characters?_map_toNat (chars : List Char) :
    characters? (chars.map Char.toNat) = some chars := by
  induction chars with
  | nil => rfl
  | cons c chars ih =>
      have hvalid : c.toNat.isValidChar := c.valid
      have hhigh : isHighSurrogate c.toNat = false := by
        simp only [isHighSurrogate, Nat.isValidChar] at hvalid ⊢
        grind
      have hlow : isLowSurrogate c.toNat = false := by
        simp only [isLowSurrogate, Nat.isValidChar] at hvalid ⊢
        grind
      rw [List.map_cons, characters?.eq_def]
      simp [hhigh, hlow, ih]

theorem string_quote (s : String) (rest : List Char) :
    Yields (string (s.toList.flatMap escape ++ '"' :: rest)) (some s) rest := by
  rcases codes_flatMap_escape s.toList rest with ⟨within, hcodes⟩
  refine ⟨within, ?_⟩
  simp [string, hcodes, Read.map, characters?_map_toNat]

/-!
# Numbers

The digits of a number end where something follows that belongs to no number.  After a value
stands nothing, a comma or the end of a line.
-/

def AfterValue (rest : List Char) : Prop :=
  rest = [] ∨ ∃ more, rest = ',' :: more ∨ rest = '\n' :: more

theorem takeWhile_isDigit_eq_nil (hrest : AfterValue rest) : rest.takeWhile Char.isDigit = [] := by
  rcases hrest with rfl | ⟨more, rfl | rfl⟩ <;> rfl

theorem dropWhile_isDigit_eq_self (hrest : AfterValue rest) :
    rest.dropWhile Char.isDigit = rest := by
  rcases hrest with rfl | ⟨more, rfl | rfl⟩ <;> rfl

theorem fraction?_afterValue (hrest : AfterValue rest) : fraction? rest = some ([], rest) := by
  rcases hrest with rfl | ⟨more, rfl | rfl⟩ <;> rfl

theorem exponent?_afterValue (hrest : AfterValue rest) : exponent? rest = some ([], rest) := by
  rcases hrest with rfl | ⟨more, rfl | rfl⟩ <;> rfl

theorem toDigits_all_isDigit (n : Nat) : ∀ c ∈ Nat.toDigits 10 n, c.isDigit = true := by
  intro c hc
  exact Nat.isDigit_of_mem_toDigits (by decide) (by decide) hc

theorem isSpace_of_isDigit {c : Char} (hc : c.isDigit = true) : isSpace c = false := by
  have hne : ∀ space : Char, space.isDigit = false → c ≠ space := by
    intro space hspace heq
    rw [heq, hspace] at hc
    cases hc
  simp [isSpace, hne ' ' rfl, hne '\n' rfl, hne '\t' rfl, hne '\r' rfl]

theorem toDigits_eq_cons (n : Nat) :
    ∃ d ds, Nat.toDigits 10 n = d :: ds ∧ d.isDigit = true := by
  rcases hdigits : Nat.toDigits 10 n with _ | ⟨d, ds⟩
  · exact absurd hdigits Nat.toDigits_ne_nil
  · refine ⟨d, ds, rfl, toDigits_all_isDigit n d ?_⟩
    rw [hdigits]
    exact List.mem_cons_self

theorem toDigits_head_ne_zero {n : Nat} (hn : n ≠ 0) {d : Char} {ds : List Char}
    (hdigits : Nat.toDigits 10 n = d :: ds) : d ≠ '0' := by
  induction n using Nat.strongRecOn generalizing ds with
  | _ n ih =>
      rw [Nat.toDigits_eq_if (by decide)] at hdigits
      split at hdigits
      · next hlt =>
          have hall : ∀ n < 10, n ≠ 0 → Nat.digitChar n ≠ '0' := by decide
          cases hdigits
          exact hall n hlt hn
      · next hge =>
          rcases toDigits_eq_cons (n / 10) with ⟨e, es, hhead, _⟩
          rw [hhead] at hdigits
          cases hdigits
          exact ih (n / 10) (by omega) (by omega) hhead

theorem whole?_toDigits (n : Nat) (hrest : AfterValue rest) :
    whole? (Nat.toDigits 10 n ++ rest) = some (Nat.toDigits 10 n, rest) := by
  by_cases hn : n = 0
  · subst hn
    rfl
  · have htake : (Nat.toDigits 10 n ++ rest).takeWhile Char.isDigit = Nat.toDigits 10 n := by
      rw [List.takeWhile_append_of_pos (toDigits_all_isDigit n), takeWhile_isDigit_eq_nil hrest,
        List.append_nil]
    have hdrop : (Nat.toDigits 10 n ++ rest).dropWhile Char.isDigit = rest := by
      rw [List.dropWhile_append_of_pos (toDigits_all_isDigit n), dropWhile_isDigit_eq_self hrest]
    rcases toDigits_eq_cons n with ⟨d, ds, hdigits, _⟩
    have hzero : ∀ tail, Nat.toDigits 10 n ++ rest = '0' :: tail → False := by
      intro tail htail
      rw [hdigits] at htail
      cases htail
      exact toDigits_head_ne_zero hn hdigits rfl
    rw [whole?.eq_2 _ hzero, htake, hdrop]
    simp [Nat.toDigits_ne_nil]

theorem number?_toDigits (n : Nat) (hrest : AfterValue rest) :
    number? (Nat.toDigits 10 n ++ rest) = some (.natural n, rest) := by
  rcases toDigits_eq_cons n with ⟨d, ds, hdigits, hd⟩
  have hwhole := whole?_toDigits n hrest
  have hvalue : Numeral.digitsValue (d :: ds) = n := by
    rw [← hdigits]
    exact Nat.ofDigitChars_ten_toDigits
  have hsign : d ≠ '-' := by
    intro hgiven
    subst hgiven
    cases hd
  rw [hdigits, List.cons_append] at hwhole ⊢
  simp only [number?]
  split
  · next hminus =>
      cases hminus
      exact absurd rfl hsign
  · simp [hwhole, fraction?_afterValue hrest, exponent?_afterValue hrest, hvalue]

/-!
# Marks and space

A mark is read where it stands, after any space.
-/

theorem yields_mark {mark : Char} (h : skipSpace cs = mark :: rest) :
    Yields (mark? mark cs) () rest := by
  unfold mark?
  split
  · next c more hskip =>
      rw [h] at hskip
      cases hskip
      rw [if_pos rfl]
      exact yields_some rfl rfl
  · next hskip =>
      rw [h] at hskip
      cases hskip

theorem mark?_eq_none {mark c : Char} (h : skipSpace cs = c :: rest) (hc : c ≠ mark) :
    mark? mark cs = none := by
  unfold mark?
  split
  · next d more hskip =>
      rw [h] at hskip
      cases hskip
      rw [if_neg hc]
  · rfl

theorem skipSpace_newline (level : Nat) (cs : List Char) :
    skipSpace (newline level ++ cs) = skipSpace cs := by
  have hspace : ∀ c ∈ newline level, isSpace c = true := by
    intro c hc
    rcases List.mem_cons.mp hc with rfl | hc
    · rfl
    · rw [List.eq_of_mem_replicate hc]
      rfl
  exact List.dropWhile_append_of_pos hspace

/-!
# Values

A value is read by its first character, and its items or members up to the closing bracket.
-/

theorem value_of_bracket_closed (hopen : skipSpace cs = '[' :: ']' :: rest) :
    Yields (value cs) (.array []) rest := by
  rcases yields_mark hopen with ⟨_, hmark⟩
  have hclose : skipSpace (']' :: rest) = ']' :: rest := rfl
  rcases yields_mark hclose with ⟨_, hmark'⟩
  rw [value, hmark]
  dsimp only
  rw [hmark']
  exact yields_some rfl rfl

theorem value_of_items {js : List Json} {c : Char} {mid more : List Char}
    (hopen : skipSpace cs = '[' :: mid) (hfirst : skipSpace mid = c :: more) (hc : c ≠ ']')
    (h : Yields (items mid) js rest) : Yields (value cs) (.array js) rest := by
  rcases yields_mark hopen with ⟨_, hmark⟩
  rw [value, hmark]
  dsimp only
  rw [mark?_eq_none hfirst hc]
  exact h.map _ _

theorem value_of_brace_closed (hopen : skipSpace cs = '\x7b' :: '\x7d' :: rest) :
    Yields (value cs) (.object []) rest := by
  rcases yields_mark hopen with ⟨_, hmark⟩
  have hclose : skipSpace ('\x7d' :: rest) = '\x7d' :: rest := rfl
  rcases yields_mark hclose with ⟨_, hmark'⟩
  rw [value, mark?_eq_none hopen (by decide), hmark]
  dsimp only
  rw [hmark']
  exact yields_some rfl rfl

theorem value_of_members {ms : List (Option String × Json)} {c : Char} {mid more : List Char}
    (hopen : skipSpace cs = '\x7b' :: mid) (hfirst : skipSpace mid = c :: more) (hc : c ≠ '\x7d')
    (h : Yields (members mid) ms rest) : Yields (value cs) (.object ms) rest := by
  rcases yields_mark hopen with ⟨_, hmark⟩
  rw [value, mark?_eq_none hopen (by decide), hmark]
  dsimp only
  rw [mark?_eq_none hfirst hc]
  exact h.map _ _

theorem value_of_string {s : Option String} {mid : List Char}
    (hopen : skipSpace cs = '"' :: mid) (h : Yields (string mid) s rest) :
    Yields (value cs) (.string s) rest := by
  rcases yields_mark hopen with ⟨_, hmark⟩
  rw [value, mark?_eq_none hopen (by decide), mark?_eq_none hopen (by decide), hmark]
  exact h.map _ _

theorem value_of_scalar {j : Json} {c : Char} {mid : List Char} (hskip : skipSpace cs = c :: mid)
    (hbracket : c ≠ '[') (hbrace : c ≠ '\x7b') (hquote : c ≠ '"')
    (h : Yields (scalar (c :: mid)) j rest) : Yields (value cs) j rest := by
  rw [value, mark?_eq_none hskip hbracket, mark?_eq_none hskip hbrace, mark?_eq_none hskip hquote]
  dsimp only
  have hscalar : Yields (scalar (skipSpace cs)) j rest := by
    rw [hskip]
    exact h
  exact hscalar.bind fun _ => yields_some rfl rfl

theorem items_last {j : Json} {mid : List Char} (h : Yields (value cs) j mid)
    (hclose : skipSpace mid = ']' :: rest) : Yields (items cs) [j] rest := by
  rcases yields_mark hclose with ⟨_, hmark⟩
  rw [items]
  refine h.bind fun _ => ?_
  dsimp only
  rw [mark?_eq_none hclose (by decide), hmark]
  exact yields_some rfl rfl

theorem items_more {j : Json} {js : List Json} {mid more : List Char}
    (h : Yields (value cs) j mid) (hcomma : skipSpace mid = ',' :: more)
    (hmore : Yields (items more) js rest) : Yields (items cs) (j :: js) rest := by
  rcases yields_mark hcomma with ⟨_, hmark⟩
  rw [items]
  refine h.bind fun _ => ?_
  dsimp only
  rw [hmark]
  exact hmore.map _ _

def YieldsMember (cs : List Char) (key : Option String) (j : Json) (rest : List Char) : Prop :=
  ∃ keyText afterKey valueText, skipSpace cs = '"' :: keyText ∧
    Yields (string keyText) key afterKey ∧ skipSpace afterKey = ':' :: valueText ∧
      Yields (value valueText) j rest

theorem members_last {key : Option String} {j : Json} {mid : List Char}
    (h : YieldsMember cs key j mid) (hclose : skipSpace mid = '\x7d' :: rest) :
    Yields (members cs) [(key, j)] rest := by
  rcases h with ⟨keyText, afterKey, valueText, hquote, hkey, hcolon, hvalue⟩
  rcases yields_mark hclose with ⟨_, hmark⟩
  rw [members]
  refine (yields_mark hquote).bind fun _ => hkey.bind fun _ => ?_
  refine (yields_mark hcolon).bind fun _ => hvalue.bind fun _ => ?_
  dsimp only
  rw [mark?_eq_none hclose (by decide), hmark]
  exact yields_some rfl rfl

theorem members_more {key : Option String} {j : Json} {ms : List (Option String × Json)}
    {mid more : List Char} (h : YieldsMember cs key j mid) (hcomma : skipSpace mid = ',' :: more)
    (hmore : Yields (members more) ms rest) : Yields (members cs) ((key, j) :: ms) rest := by
  rcases h with ⟨keyText, afterKey, valueText, hquote, hkey, hcolon, hvalue⟩
  rcases yields_mark hcomma with ⟨_, hmark⟩
  rw [members]
  refine (yields_mark hquote).bind fun _ => hkey.bind fun _ => ?_
  refine (yields_mark hcolon).bind fun _ => hvalue.bind fun _ => ?_
  dsimp only
  rw [hmark]
  exact hmore.map _ _

theorem scalar_natural (n : Nat) (hrest : AfterValue rest) :
    Yields (scalar (Nat.toDigits 10 n ++ rest)) (.natural n) rest := by
  have hnumber := number?_toDigits n hrest
  have hlength : rest.length < (Nat.toDigits 10 n ++ rest).length := by
    have hpos : 0 < (Nat.toDigits 10 n).length := Nat.length_toDigits_pos
    rw [List.length_append]
    omega
  rcases toDigits_eq_cons n with ⟨d, ds, hdigits, hd⟩
  -- A word does not start with a digit.
  have hword : ∀ c tail, c.isDigit = false → Nat.toDigits 10 n ++ rest = c :: tail → False := by
    intro c tail hc htext
    rw [hdigits] at htext
    cases htext
    rw [hd] at hc
    cases hc
  rw [scalar.eq_4 _ (fun _ => hword 'n' _ rfl) (fun _ => hword 't' _ rfl)
    (fun _ => hword 'f' _ rfl), hnumber]
  simp only [Option.bind_eq_bind, Option.bind_some, dif_pos hlength]
  exact yields_some rfl rfl

end Reader

/-!
# Values that are written

A written value starts with a character that is neither space nor a closing bracket, so a reader of
items does not take it for the end.
-/

mutual

/-- Whether every string in the value is a text and every number has digits alone. -/
def isPlain : Json → Bool
  | null => true
  | bool _ => true
  | natural _ => true
  | decimal _ => false
  | string s => s.isSome
  | array items => arePlain items
  | object members => membersArePlain members

def arePlain : List Json → Bool
  | [] => true
  | item :: rest => isPlain item && arePlain rest

def membersArePlain : List (Option String × Json) → Bool
  | [] => true
  | (key, value) :: rest => key.isSome && isPlain value && membersArePlain rest

end

open Reader

theorem print_eq_cons (level : Nat) {j : Json} (hj : isPlain j) :
    ∃ c cs, print level j = c :: cs ∧ isSpace c = false ∧ c ≠ ']' := by
  fun_cases print level j with
  | case1 => exact ⟨'n', _, rfl, rfl, by decide⟩
  | case2 b =>
      cases b with
      | false => exact ⟨'f', _, rfl, rfl, by decide⟩
      | true => exact ⟨'t', _, rfl, rfl, by decide⟩
  | case3 n =>
      rcases toDigits_eq_cons n with ⟨d, ds, hdigits, hd⟩
      refine ⟨d, ds, hdigits, isSpace_of_isDigit hd, ?_⟩
      intro hgiven
      subst hgiven
      cases hd
  | case4 text => cases hj
  | case5 s => exact ⟨'"', _, rfl, rfl, by decide⟩
  | case6 => exact ⟨'[', _, rfl, rfl, by decide⟩
  | case7 item rest => exact ⟨'[', _, rfl, rfl, by decide⟩
  | case8 => exact ⟨'\x7b', _, rfl, rfl, by decide⟩
  | case9 key value rest => exact ⟨'\x7b', _, rfl, rfl, by decide⟩

theorem skipSpace_print (level : Nat) {j : Json} (hj : isPlain j) (rest : List Char) :
    skipSpace (print level j ++ rest) = print level j ++ rest := by
  rcases print_eq_cons level hj with ⟨c, cs, hprint, hspace, _⟩
  rw [hprint, List.cons_append, skipSpace, List.dropWhile_cons_of_neg]
  rw [hspace]
  exact Bool.false_ne_true

theorem skipSpace_newline_print (level : Nat) {j : Json} (hj : isPlain j) (rest : List Char) :
    skipSpace (newline level ++ (print level j ++ rest)) = print level j ++ rest := by
  rw [skipSpace_newline, skipSpace_print level hj]

theorem yieldsMember_quote (level : Nat) (key : String) {j : Json} {text rest : List Char}
    (h : Yields (value (' ' :: text)) j rest) :
    YieldsMember (newline level ++ (quote key ++ ':' :: ' ' :: text)) (some key) j rest := by
  refine ⟨_, ':' :: ' ' :: text, ' ' :: text, ?_, string_quote key _, rfl, h⟩
  rw [skipSpace_newline, quote]
  simp [skipSpace, isSpace]

theorem afterValue_printItems (level : Nat) (js : List Json) (rest : List Char) :
    AfterValue (printItems level js ++ rest) := by
  cases js with
  | nil => exact .inr ⟨_, .inr rfl⟩
  | cons j js => exact .inr ⟨_, .inl rfl⟩

theorem afterValue_printMembers (level : Nat) (ms : List (Option String × Json))
    (rest : List Char) : AfterValue (printMembers level ms ++ rest) := by
  cases ms with
  | nil => exact .inr ⟨_, .inr rfl⟩
  | cons m ms => exact .inr ⟨_, .inl rfl⟩

/-!
# Reading values back

A value is read back by cases on how it is written.  A list is read item by item: when its first
item has been read, what is left is what was written for the others.
-/

mutual

theorem value_print (level : Nat) : (j : Json) → isPlain j → (cs rest : List Char) →
    skipSpace cs = print level j ++ rest → AfterValue rest → Yields (value cs) j rest
  | null, _, _, _, hcs, _ =>
      value_of_scalar hcs (by decide) (by decide) (by decide) (yields_some rfl rfl)
  | bool false, _, _, _, hcs, _ =>
      value_of_scalar hcs (by decide) (by decide) (by decide) (yields_some rfl rfl)
  | bool true, _, _, _, hcs, _ =>
      value_of_scalar hcs (by decide) (by decide) (by decide) (yields_some rfl rfl)
  | natural n, _, cs, rest, hcs, hrest => by
      have hscalar := scalar_natural n hrest
      rcases toDigits_eq_cons n with ⟨d, ds, hdigits, hd⟩
      rw [print, hdigits] at hcs
      rw [hdigits] at hscalar
      refine value_of_scalar hcs ?_ ?_ ?_ hscalar
      all_goals
        intro hgiven
        subst hgiven
        cases hd
  | string (some s), _, cs, rest, hcs, _ => by
      rw [print, Option.getD_some, quote] at hcs
      refine value_of_string ?_ (string_quote s rest)
      simpa using hcs
  | array [], _, _, _, hcs, _ => value_of_bracket_closed hcs
  | array (item :: more), hj, cs, rest, hcs, _ => by
      rw [isPlain, arePlain, Bool.and_eq_true] at hj
      have hopen : skipSpace cs = '[' :: (newline (level + 1) ++
          (print (level + 1) item ++ (printItems level more ++ rest))) := by
        rw [hcs, print]
        simp
      have hskip := skipSpace_newline_print (level + 1) hj.1 (printItems level more ++ rest)
      have hitem := value_print (level + 1) item hj.1 _ _ hskip
        (afterValue_printItems level more rest)
      rcases print_eq_cons (level + 1) hj.1 with ⟨c, tail, hprint, _, hc⟩
      have hfirst := hskip.trans (congrArg (· ++ (printItems level more ++ rest)) hprint)
      exact value_of_items hopen hfirst hc (items_print level more hj.2 _ item rest hitem)
  | object [], _, _, _, hcs, _ => value_of_brace_closed hcs
  | object ((some key, j) :: more), hj, cs, rest, hcs, _ => by
      rw [isPlain, membersArePlain, Bool.and_eq_true, Bool.and_eq_true] at hj
      have hopen : skipSpace cs = '\x7b' :: (newline (level + 1) ++ (quote key ++
          ':' :: ' ' :: (print (level + 1) j ++ (printMembers level more ++ rest)))) := by
        rw [hcs, print]
        simp
      have hvalue := value_print (level + 1) j hj.1.2 (' ' :: _) _
        (skipSpace_print (level + 1) hj.1.2 (printMembers level more ++ rest))
        (afterValue_printMembers level more rest)
      have hmember := yieldsMember_quote (level + 1) key hvalue
      have hmembers := members_print level more hj.2 _ key j rest hmember
      rcases hmember with ⟨_, _, _, hquote, _⟩
      exact value_of_members hopen hquote (by decide) hmembers

theorem items_print (level : Nat) : (js : List Json) → arePlain js → (cs : List Char) →
    (j : Json) → (rest : List Char) → Yields (value cs) j (printItems level js ++ rest) →
      Yields (items cs) (j :: js) rest
  | [], _, cs, j, rest, h => by
      refine items_last h ?_
      rw [printItems, List.append_assoc, skipSpace_newline]
      rfl
  | next :: js, hjs, cs, j, rest, h => by
      rw [arePlain, Bool.and_eq_true] at hjs
      have hcomma : skipSpace (printItems level (next :: js) ++ rest) =
          ',' :: (newline (level + 1) ++
            (print (level + 1) next ++ (printItems level js ++ rest))) := by
        rw [printItems]
        simp [skipSpace, isSpace]
      have hnext := value_print (level + 1) next hjs.1 _ _
        (skipSpace_newline_print (level + 1) hjs.1 (printItems level js ++ rest))
        (afterValue_printItems level js rest)
      exact items_more h hcomma (items_print level js hjs.2 _ next rest hnext)

theorem members_print (level : Nat) : (ms : List (Option String × Json)) →
    membersArePlain ms → (cs : List Char) → (key : String) → (j : Json) → (rest : List Char) →
      YieldsMember cs (some key) j (printMembers level ms ++ rest) →
        Yields (members cs) ((some key, j) :: ms) rest
  | [], _, cs, key, j, rest, h => by
      refine members_last h ?_
      rw [printMembers, List.append_assoc, skipSpace_newline]
      rfl
  | (some next, j') :: ms, hms, cs, key, j, rest, h => by
      rw [membersArePlain, Bool.and_eq_true, Bool.and_eq_true] at hms
      have hcomma : skipSpace (printMembers level ((some next, j') :: ms) ++ rest) =
          ',' :: (newline (level + 1) ++ (quote next ++
            ':' :: ' ' :: (print (level + 1) j' ++ (printMembers level ms ++ rest)))) := by
        rw [printMembers]
        simp [skipSpace, isSpace]
      have hvalue := value_print (level + 1) j' hms.1.2 (' ' :: _) _
        (skipSpace_print (level + 1) hms.1.2 (printMembers level ms ++ rest))
        (afterValue_printMembers level ms rest)
      exact members_more h hcomma
        (members_print level ms hms.2 _ next j' rest (yieldsMember_quote (level + 1) next hvalue))

end

/-- A plain value is what its text reads as. -/
theorem ofText?_toText (j : Json) (hj : isPlain j) : ofText? j.toText = some j := by
  have hskip : skipSpace j.toText.toList = print 0 j ++ [] := by
    rw [toText, String.toList_ofList]
    simpa using skipSpace_print 0 hj []
  rcases value_print 0 j hj _ [] hskip (.inl rfl) with ⟨within, hvalue⟩
  rw [ofText?, hvalue]
  rfl

end Json
end Blockwise
