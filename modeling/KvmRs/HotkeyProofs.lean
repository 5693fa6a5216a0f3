import KvmRs.CaptureProofs
import KvmRs.TextProofs

/-! # Hotkeys

    `parse_hotkey` goes through the parts of a text like `Ctrl+Alt+F` once,
    setting a flag for each modifier, and stops at a second part that is none
    or at one that names no key.

    What it accepts does not depend on the order of the parts (`Reads`): one
    of them is no modifier and names a key, and the flags are those of the
    others.  `FullCasing` is all that is known of the case tables; the text is
    ASCII. -/

namespace KvmHotkey

open KvmKeymap KvmText
open KvmCapture (HotkeyChord ctrlAltF)

/-- `str::to_lowercase` is known on ASCII text, too. -/
structure FullCasing extends Casing where
  toLowercase_ascii : ∀ s, (∀ c ∈ s, c.toNat < 128) →
    toLowercase s = s.map Char.toLower

/-- A `match` on string literals: the first arm that is the text. -/
def matchArms {α : Type} (arms : List (String × α)) (text : List Char) :
    Option α :=
  (arms.find? fun arm => arm.1.toList = text).map Prod.snd

inductive Modifier where
  | ctrl | alt | shift | metaKey
  deriving DecidableEq

/-- The arms for a part in lower case. -/
def modifierArms : List (String × Modifier) :=
  [("ctrl", .ctrl), ("control", .ctrl), ("alt", .alt), ("shift", .shift),
    ("super", .metaKey), ("win", .metaKey), ("meta", .metaKey),
    ("cmd", .metaKey)]

def letterKey : Char → Option Key
  | 'A' => some .keyA
  | 'B' => some .keyB
  | 'C' => some .keyC
  | 'D' => some .keyD
  | 'E' => some .keyE
  | 'F' => some .keyF
  | 'G' => some .keyG
  | 'H' => some .keyH
  | 'I' => some .keyI
  | 'J' => some .keyJ
  | 'K' => some .keyK
  | 'L' => some .keyL
  | 'M' => some .keyM
  | 'N' => some .keyN
  | 'O' => some .keyO
  | 'P' => some .keyP
  | 'Q' => some .keyQ
  | 'R' => some .keyR
  | 'S' => some .keyS
  | 'T' => some .keyT
  | 'U' => some .keyU
  | 'V' => some .keyV
  | 'W' => some .keyW
  | 'X' => some .keyX
  | 'Y' => some .keyY
  | 'Z' => some .keyZ
  | _ => none

def digitKey : Char → Option Key
  | '0' => some .num0
  | '1' => some .num1
  | '2' => some .num2
  | '3' => some .num3
  | '4' => some .num4
  | '5' => some .num5
  | '6' => some .num6
  | '7' => some .num7
  | '8' => some .num8
  | '9' => some .num9
  | _ => none

/-- The arms for a name in upper case. -/
def keyArms : List (String × Key) :=
  [("F1", .f1), ("F2", .f2), ("F3", .f3), ("F4", .f4), ("F5", .f5),
    ("F6", .f6), ("F7", .f7), ("F8", .f8), ("F9", .f9), ("F10", .f10),
    ("F11", .f11), ("F12", .f12), ("SPACE", .space), ("ESCAPE", .escape),
    ("ESC", .escape), ("TAB", .tab), ("ENTER", .return), ("RETURN", .return),
    ("UP", .upArrow), ("UPARROW", .upArrow), ("DOWN", .downArrow),
    ("DOWNARROW", .downArrow), ("LEFT", .leftArrow), ("LEFTARROW", .leftArrow),
    ("RIGHT", .rightArrow), ("RIGHTARROW", .rightArrow), ("HOME", .home),
    ("END", .endKey), ("PAGEUP", .pageUp), ("PAGEDOWN", .pageDown),
    ("INSERT", .insert), ("DELETE", .delete), ("DEL", .delete),
    ("BACKSPACE", .backspace), ("PAUSE", .pause), ("SCROLLLOCK", .scrollLock),
    ("PRINTSCREEN", .printScreen), ("PRTSC", .printScreen),
    ("BACKQUOTE", .backQuote), ("GRAVE", .backQuote), ("`", .backQuote)]

/-- What a name in upper case is found to be. -/
inductive Lookup where
  | key (k : Key)
  | unknown
  /-- `unreachable!`. -/
  | unreachable
  deriving DecidableEq

def Lookup.ofOption (other : Lookup) : Option Key → Lookup
  | some k => .key k
  | none => other

/-- The body of `parse_key_name`: a single byte is looked up by its kind. -/
def lookup (upper : List Char) : Lookup :=
  match upper with
  | c :: _ =>
      if (upper.map Char.utf8Size).sum = 1 ∧ c.isAlpha = true then
        .ofOption .unreachable (letterKey c)
      else if (upper.map Char.utf8Size).sum = 1 ∧ c.isDigit = true then
        .ofOption .unreachable (digitKey c)
      else .ofOption .unknown (matchArms keyArms upper)
  | [] => .ofOption .unknown (matchArms keyArms upper)

/-- How parsing ends without a chord. -/
inductive Failure where
  | err (msg : List Char)
  | unreachable
  deriving DecidableEq

def parseKeyName (t : Casing) (s : List Char) : Except Failure Key :=
  match lookup (t.toUppercase s) with
  | .key k => .ok k
  | .unknown => .error (.err ("unknown key code: ".toList ++ s))
  | .unreachable => .error .unreachable

/-- The variables of the loop. -/
structure Parsed where
  ctrl : Bool
  alt : Bool
  shift : Bool
  metaKey : Bool
  key : Option Key
  deriving DecidableEq

def Parsed.new : Parsed where
  ctrl := false
  alt := false
  shift := false
  metaKey := false
  key := none

def Parsed.set (p : Parsed) : Modifier → Parsed
  | .ctrl => { p with ctrl := true }
  | .alt => { p with alt := true }
  | .shift => { p with shift := true }
  | .metaKey => { p with metaKey := true }

/-- One pass of the loop over the parts of `s`. -/
def parsePart (t : Casing) (s : List Char) (p : Parsed) (part : List Char) :
    Except Failure Parsed :=
  let lower := t.toLowercase part
  match matchArms modifierArms lower with
  | some m => .ok (p.set m)
  | none =>
      if p.key.isSome then
        .error (.err ("multiple key codes in hotkey string: ".toList ++ s))
      else (parseKeyName t lower).map fun k => { p with key := some k }

/-- Pieces without the space around them, if there is anything else. -/
def trimmed (pieces : List (List Char)) : List (List Char) :=
  (pieces.map trim).filter fun part => part ≠ []

def parts (s : List Char) : List (List Char) := trimmed (s.splitOn '+')

/-- `parse_hotkey`. -/
def parseHotkey (t : Casing) (s : List Char) : Except Failure HotkeyChord :=
  if parts s = [] then .error (.err "empty hotkey string".toList)
  else
    match (parts s).foldlM (parsePart t s) Parsed.new with
    | .error e => .error e
    | .ok p =>
        match p.key with
        | some key => .ok ⟨p.ctrl, p.alt, p.shift, p.metaKey, key⟩
        | none =>
            .error (.err ("no key code found in hotkey string: ".toList ++ s))

/-- The hotkey that the server gives to its capture. -/
def registered (t : Casing) (s : List Char) : Option HotkeyChord :=
  (parseHotkey t s).toOption

/-! ## The grammar -/

/-- Every character is ASCII. -/
def Ascii (s : List Char) : Prop := ∀ c ∈ s, c.toNat < 128

/-- The documented modifiers. -/
def modifierNames : List (String × Modifier) :=
  [("Ctrl", .ctrl), ("Control", .ctrl), ("Alt", .alt), ("Shift", .shift),
    ("Super", .metaKey), ("Win", .metaKey), ("Meta", .metaKey),
    ("Cmd", .metaKey)]

/-- The documented keys. -/
def keyNames : List (String × Key) :=
  [("A", .keyA), ("B", .keyB), ("C", .keyC), ("D", .keyD), ("E", .keyE),
    ("F", .keyF), ("G", .keyG), ("H", .keyH), ("I", .keyI), ("J", .keyJ),
    ("K", .keyK), ("L", .keyL), ("M", .keyM), ("N", .keyN), ("O", .keyO),
    ("P", .keyP), ("Q", .keyQ), ("R", .keyR), ("S", .keyS), ("T", .keyT),
    ("U", .keyU), ("V", .keyV), ("W", .keyW), ("X", .keyX), ("Y", .keyY),
    ("Z", .keyZ), ("0", .num0), ("1", .num1), ("2", .num2), ("3", .num3),
    ("4", .num4), ("5", .num5), ("6", .num6), ("7", .num7), ("8", .num8),
    ("9", .num9), ("F1", .f1), ("F2", .f2), ("F3", .f3), ("F4", .f4),
    ("F5", .f5), ("F6", .f6), ("F7", .f7), ("F8", .f8), ("F9", .f9),
    ("F10", .f10), ("F11", .f11), ("F12", .f12), ("Space", .space),
    ("Escape", .escape), ("Esc", .escape), ("Tab", .tab), ("Enter", .return),
    ("Return", .return), ("Up", .upArrow), ("UpArrow", .upArrow),
    ("Down", .downArrow), ("DownArrow", .downArrow), ("Left", .leftArrow),
    ("LeftArrow", .leftArrow), ("Right", .rightArrow),
    ("RightArrow", .rightArrow), ("Home", .home), ("End", .endKey),
    ("PageUp", .pageUp), ("PageDown", .pageDown), ("Insert", .insert),
    ("Delete", .delete), ("Del", .delete), ("Backspace", .backspace),
    ("Pause", .pause), ("ScrollLock", .scrollLock),
    ("PrintScreen", .printScreen), ("PrtSc", .printScreen),
    ("BackQuote", .backQuote), ("Grave", .backQuote), ("`", .backQuote)]

/-- A text in lower case. -/
def lower (part : List Char) : List Char := part.map Char.toLower

/-- The text is one of the names of `x`, in any letter case. -/
def Named {α : Type} (names : List (String × α)) (x : α) (part : List Char) :
    Prop :=
  ∃ e ∈ names, lower e.1.toList = lower part ∧ e.2 = x

/-- The text is no name of a modifier. -/
def NoModifier (part : List Char) : Prop :=
  ∀ e ∈ modifierNames, lower e.1.toList ≠ lower part

instance noModifierDecidable (part : List Char) : Decidable (NoModifier part) :=
  inferInstanceAs (Decidable (∀ e ∈ modifierNames, _))

/-- The parts that are no modifiers. -/
def keyParts (ps : List (List Char)) : List (List Char) :=
  ps.filter fun part => NoModifier part

def chordFlag (chord : HotkeyChord) : Modifier → Bool
  | .ctrl => chord.ctrl
  | .alt => chord.alt
  | .shift => chord.shift
  | .metaKey => chord.metaKey

/-- One part is no modifier and names the key; the flags are those of the
    modifiers that occur. -/
structure Reads (ps : List (List Char)) (chord : HotkeyChord) : Prop where
  key : ∃ part, keyParts ps = [part] ∧ Named keyNames chord.key part
  flags : ∀ m, chordFlag chord m = true
    ↔ ∃ part ∈ ps, Named modifierNames m part

/-! ## Tables -/

section Tables

variable {α : Type} {arms names : List (String × α)} {x : α}
  {part upper : List Char} {k : Key}

theorem matchArms_mem {text : List Char} (h : matchArms arms text = some x) :
    ∃ arm ∈ arms, arm.1.toList = text ∧ arm.2 = x := by
  obtain ⟨arm, hfind, hx⟩ := Option.map_eq_some_iff.mp h
  have htext := List.find?_some hfind
  exact ⟨arm, List.mem_of_find?_eq_some hfind, of_decide_eq_true htext, hx⟩

/-- The arms for the modifiers are their documented names. -/
theorem modifierArms_iff {m : Modifier} :
    matchArms modifierArms (lower part) = some m
      ↔ Named modifierNames m part := by
  have hsound : ∀ arm ∈ modifierArms, ∃ e ∈ modifierNames,
      lower e.1.toList = arm.1.toList ∧ e.2 = arm.2 := by
    decide +kernel
  have hcomplete : ∀ e ∈ modifierNames,
      matchArms modifierArms (lower e.1.toList) = some e.2 := by
    decide +kernel
  constructor
  · intro h
    obtain ⟨arm, harm, htext, rfl⟩ := matchArms_mem h
    obtain ⟨e, he, hname, hm⟩ := hsound arm harm
    exact ⟨e, he, hname.trans htext, hm⟩
  · rintro ⟨e, he, hname, rfl⟩
    rw [← hname]
    exact hcomplete e he

theorem noModifier_iff :
    NoModifier part ↔ matchArms modifierArms (lower part) = none := by
  rw [Option.eq_none_iff_forall_ne_some]
  constructor
  · intro h m hm
    obtain ⟨e, he, hname, -⟩ := modifierArms_iff.mp hm
    exact h e he hname
  · intro h e he hname
    exact h e.2 (modifierArms_iff.mpr ⟨e, he, hname, rfl⟩)

/-- A single ASCII character is a single byte. -/
theorem singleton_of_size (hascii : Ascii upper)
    (h : (upper.map Char.utf8Size).sum = 1) : ∃ c, upper = [c] := by
  have hone : ∀ c ∈ upper, Char.utf8Size c = 1 := fun c hc =>
    @ascii_char (fun c => c.utf8Size = 1) (by decide) c (hascii c hc)
  rw [List.map_congr_left hone, List.map_const', List.sum_replicate_nat,
    Nat.mul_one] at h
  exact List.length_eq_one_iff.mp h

/-- A letter or digit key is documented under its character. -/
theorem letterKey_named : ∀ n < 128, ∀ k ∈ letterKey (Char.ofNat n),
    ∃ e ∈ keyNames, e.1.toList.map Char.toUpper = [Char.ofNat n] ∧ e.2 = k := by
  decide +kernel

theorem digitKey_named : ∀ n < 128, ∀ k ∈ digitKey (Char.ofNat n),
    ∃ e ∈ keyNames, e.1.toList.map Char.toUpper = [Char.ofNat n] ∧ e.2 = k := by
  decide +kernel

/-- What a table of characters finds for a single byte is documented, if its
    characters are. -/
theorem single_named {table : Char → Option Key} {c : Char} {rest : List Char}
    (htable : ∀ n < 128, ∀ k ∈ table (Char.ofNat n), ∃ e ∈ keyNames,
      e.1.toList.map Char.toUpper = [Char.ofNat n] ∧ e.2 = k)
    (hascii : Ascii (c :: rest))
    (hsize : ((c :: rest).map Char.utf8Size).sum = 1) (hk : table c = some k) :
    ∃ e ∈ keyNames, e.1.toList.map Char.toUpper = c :: rest ∧ e.2 = k := by
  obtain ⟨d, hd⟩ := singleton_of_size hascii hsize
  have hnamed := @ascii_char (fun c => ∀ k ∈ table c, ∃ e ∈ keyNames,
    e.1.toList.map Char.toUpper = [c] ∧ e.2 = k) htable c
    (hascii c (List.mem_cons_self ..)) k hk
  rwa [hd, ← (List.cons.inj hd).1]

theorem ofOption_key {other : Lookup} {o : Option Key} (h : ∀ k, other ≠ .key k)
    (hk : Lookup.ofOption other o = .key k) : o = some k := by
  cases o with
  | none => exact absurd hk (h k)
  | some k' => rw [Lookup.key.inj hk]

theorem ofOption_ne {other : Lookup} {o : Option Key} (h : o.isSome = true) :
    Lookup.ofOption other o ≠ .unreachable := by
  obtain ⟨k, rfl⟩ := Option.isSome_iff_exists.mp h
  exact Lookup.noConfusion

/-- The arms are the documented names of more than one character, and the
    backquote, in upper case. -/
theorem keyArms_upper : keyArms.map (fun arm => (arm.1.toList, arm.2))
    = (keyNames.drop 36).map fun e => (e.1.toList.map Char.toUpper, e.2) := by
  decide +kernel

/-- The arms for the keys are documented. -/
theorem keyArms_named (h : matchArms keyArms upper = some k) :
    ∃ e ∈ keyNames, e.1.toList.map Char.toUpper = upper ∧ e.2 = k := by
  obtain ⟨arm, harm, rfl, rfl⟩ := matchArms_mem h
  have hmem : (arm.1.toList, arm.2) ∈ keyArms.map fun arm => (arm.1.toList, arm.2) :=
    List.mem_map_of_mem harm
  rw [keyArms_upper] at hmem
  obtain ⟨e, he, heq⟩ := List.mem_map.mp hmem
  exact ⟨e, List.mem_of_mem_drop he, Prod.mk.inj heq⟩

/-- What is found is documented. -/
theorem lookup_named (hascii : Ascii upper) (h : lookup upper = .key k) :
    ∃ e ∈ keyNames, e.1.toList.map Char.toUpper = upper ∧ e.2 = k := by
  cases upper with
  | nil =>
      rw [lookup] at h
      exact keyArms_named (ofOption_key (by simp) h)
  | cons c rest =>
      rw [lookup] at h
      split at h
      · rename_i hletter
        exact single_named letterKey_named hascii hletter.1
          (ofOption_key (by simp) h)
      · split at h
        · rename_i hdigit
          exact single_named digitKey_named hascii hdigit.1
            (ofOption_key (by simp) h)
        · exact keyArms_named (ofOption_key (by simp) h)

/-- What is documented is found. -/
theorem lookup_documented : ∀ e ∈ keyNames,
    lookup (e.1.toList.map Char.toUpper) = .key e.2 := by
  decide +kernel

theorem ascii_of_isAlpha {c : Char} (h : c.isAlpha = true) : c.toNat < 128 := by
  rcases Bool.or_eq_true_iff.mp h with hupper | hlower
  · have hle : c.toNat ≤ 90 := (of_decide_eq_true hupper).2
    omega
  · have hle : c.toNat ≤ 122 := of_decide_eq_true (Bool.and_eq_true_iff.mp hlower).2
    omega

theorem ascii_of_isDigit {c : Char} (h : c.isDigit = true) : c.toNat < 128 := by
  have hle : c.toNat ≤ 57 := (Char.isDigit_iff_toNat.mp h).2
  omega

/-- There is an arm for every letter in upper case and every digit. -/
theorem lookup_reaches (s : List Char) :
    lookup (s.map Char.toUpper) ≠ .unreachable := by
  have hletter := @ascii_char (fun c => c.toUpper.isAlpha = true →
    (letterKey c.toUpper).isSome = true) (by decide +kernel)
  have hdigit := @ascii_char (fun c => c.isDigit = true →
    (digitKey c).isSome = true) (by decide +kernel)
  cases s with
  | nil => decide
  | cons c s =>
      rw [List.map_cons, lookup]
      split
      · rename_i h
        have hc := ascii_of_toUpper (ascii_of_isAlpha h.2)
        exact ofOption_ne (hletter hc h.2)
      · split
        · rename_i h
          exact ofOption_ne (hdigit (ascii_of_isDigit h.2) h.2)
        · cases matchArms keyArms (c.toUpper :: s.map Char.toUpper) with
          | none => exact Lookup.noConfusion
          | some k => exact Lookup.noConfusion

end Tables

/-! ## Parts -/

def Parsed.flag (p : Parsed) : Modifier → Bool
  | .ctrl => p.ctrl
  | .alt => p.alt
  | .shift => p.shift
  | .metaKey => p.metaKey

section Parts

variable {t : FullCasing} {s part : List Char} {p : Parsed} {m : Modifier}
  {k : Key}

theorem flag_set {m' : Modifier} :
    (p.set m).flag m' = true ↔ m' = m ∨ p.flag m' = true := by
  cases m with
  | ctrl => cases m' <;> simp [Parsed.set, Parsed.flag]
  | alt => cases m' <;> simp [Parsed.set, Parsed.flag]
  | shift => cases m' <;> simp [Parsed.set, Parsed.flag]
  | metaKey => cases m' <;> simp [Parsed.set, Parsed.flag]

theorem key_set : (p.set m).key = p.key := by
  cases m <;> rfl

theorem Ascii.lower (h : Ascii part) : Ascii (lower part) := by
  intro c hc
  obtain ⟨d, hd, rfl⟩ := List.mem_map.mp hc
  exact @ascii_char (fun d => d.toLower.toNat < 128) (by decide) d (h d hd)

/-- Lower case first does not change the upper case. -/
theorem toUppercase_lower (h : Ascii part) :
    t.toUppercase (lower part) = part.map Char.toUpper := by
  rw [t.toUppercase_ascii _ h.lower, lower, List.map_map]
  exact List.map_congr_left fun c _ => toUpper_toLower c

theorem named_upper : Named keyNames k part
    ↔ ∃ e ∈ keyNames, e.1.toList.map Char.toUpper = part.map Char.toUpper ∧
      e.2 = k := by
  simp only [Named, lower, map_toLower_eq_iff]

theorem lookup_of_named (h : Named keyNames k part) :
    lookup (part.map Char.toUpper) = .key k := by
  obtain ⟨e, he, hname, rfl⟩ := named_upper.mp h
  rw [← hname]
  exact lookup_documented e he

/-- **A NAME IN ANY CASE**: lower-casing and then upper-casing finds what is
    documented. -/
theorem parseKeyName_iff (h : Ascii part) :
    parseKeyName t.toCasing (lower part) = .ok k ↔ Named keyNames k part := by
  have hupper : Ascii (part.map Char.toUpper) :=
    fun c hc => (isUpper_map_toUpper h c hc).1
  rw [parseKeyName, toUppercase_lower h]
  constructor
  · intro hok
    split at hok
    · rename_i k' hk'
      rw [← Except.ok.inj hok]
      exact named_upper.mpr (lookup_named hupper hk')
    · cases hok
    · cases hok
  · intro hnamed
    rw [lookup_of_named hnamed]

theorem parseKeyName_ne (h : Ascii part) :
    parseKeyName t.toCasing (lower part) ≠ .error .unreachable := by
  rw [parseKeyName, toUppercase_lower h]
  split
  · simp
  · simp
  · rename_i hreach
    exact absurd hreach (lookup_reaches part)

theorem noModifier_iff_forall :
    NoModifier part ↔ ∀ m, ¬ Named modifierNames m part := by
  rw [noModifier_iff, Option.eq_none_iff_forall_ne_some]
  exact forall_congr' fun m => not_congr modifierArms_iff

/-- A part is a modifier or none. -/
theorem noModifier_or (part : List Char) :
    NoModifier part ∨ ∃ m, Named modifierNames m part := by
  rw [noModifier_iff_forall, ← not_exists]
  exact (Classical.em _).symm

theorem parsePart_eq (h : Ascii part) : parsePart t.toCasing s p part
    = match matchArms modifierArms (lower part) with
      | some m => .ok (p.set m)
      | none =>
          if p.key.isSome then
            .error (.err ("multiple key codes in hotkey string: ".toList ++ s))
          else (parseKeyName t.toCasing (lower part)).map fun k =>
            { p with key := some k } := by
  rw [parsePart, t.toLowercase_ascii part h]
  rfl

theorem parsePart_modifier (h : Ascii part) (hm : Named modifierNames m part) :
    parsePart t.toCasing s p part = .ok (p.set m) := by
  rw [parsePart_eq h, modifierArms_iff.mpr hm]

/-- A second part that is no modifier is an error, whatever it is. -/
theorem parsePart_second (h : Ascii part) (hno : NoModifier part)
    (hkey : p.key = some k) : ∃ msg,
      parsePart t.toCasing s p part = .error (.err msg) := by
  rw [parsePart_eq h, noModifier_iff.mp hno, hkey]
  exact ⟨_, rfl⟩

theorem parsePart_first (h : Ascii part) (hno : NoModifier part)
    (hkey : p.key = none) : parsePart t.toCasing s p part
      = (parseKeyName t.toCasing (lower part)).map fun k =>
          { p with key := some k } := by
  rw [parsePart_eq h, noModifier_iff.mp hno, hkey]
  rfl

end Parts

/-! ## All parts -/

/-- The parts that are no modifiers: at most one, and it names a key. -/
def Readable (ps : List (List Char)) : Prop :=
  keyParts ps = [] ∨ ∃ part k, keyParts ps = [part] ∧ Named keyNames k part

/-- What the variables of the loop are after these parts. -/
structure Collected (ps : List (List Char)) (p : Parsed) : Prop where
  key : keyParts ps = [] ∧ p.key = none ∨
    ∃ part k, keyParts ps = [part] ∧ Named keyNames k part ∧ p.key = some k
  flags : ∀ m, p.flag m = true ↔ ∃ part ∈ ps, Named modifierNames m part

/-- What the loop makes of these parts. -/
def Explained (ps : List (List Char)) : Except Failure Parsed → Prop
  | .ok p => Collected ps p
  | .error e => ¬ Readable ps ∧ e ≠ .unreachable

section Loop

variable {t : FullCasing} {s part : List Char} {ps : List (List Char)}
  {p : Parsed} {m : Modifier}

theorem snoc_eq_singleton {l : List (List Char)} {a b : List Char}
    (h : l ++ [a] = [b]) : l = [] ∧ a = b := by
  rcases List.append_eq_singleton_iff.mp h with ⟨hl, hab⟩ | ⟨-, hnil⟩
  · exact ⟨hl, (List.cons.inj hab).1⟩
  · cases hnil

theorem keyParts_snoc_key (h : NoModifier part) :
    keyParts (ps ++ [part]) = keyParts ps ++ [part] := by
  rw [keyParts, List.filter_append, List.filter_cons_of_pos (by simpa using h)]
  rfl

theorem keyParts_snoc_modifier (h : Named modifierNames m part) :
    keyParts (ps ++ [part]) = keyParts ps := by
  have hno : ¬ NoModifier part := fun hno => noModifier_iff_forall.mp hno m h
  rw [keyParts, List.filter_append, List.filter_cons_of_neg (by simpa using hno)]
  exact List.append_nil _

/-- A part more is no more readable. -/
theorem Readable.of_snoc (h : Readable (ps ++ [part])) : Readable ps := by
  rcases noModifier_or part with hno | ⟨m, hm⟩
  · rw [Readable, keyParts_snoc_key hno] at h
    rcases h with h | ⟨part', k, h, -⟩
    · exact absurd h (by simp)
    · exact Or.inl (snoc_eq_singleton h).1
  · rwa [Readable, keyParts_snoc_modifier hm] at h

/-- A modifier occurs among the parts if it did, or if the last one is it. -/
theorem occurs_snoc : (∃ part' ∈ ps ++ [part], Named modifierNames m part')
    ↔ (∃ part' ∈ ps, Named modifierNames m part') ∨
      Named modifierNames m part := by
  simp only [List.mem_append, List.mem_singleton, or_and_right, exists_or,
    exists_eq_left]

theorem modifier_unique {m' : Modifier} (h : Named modifierNames m part)
    (h' : Named modifierNames m' part) : m' = m := by
  have heq := (modifierArms_iff.mpr h').symm.trans (modifierArms_iff.mpr h)
  exact Option.some.inj heq

/-- No key so far, and no part but modifiers. -/
theorem Collected.keyParts_nil (h : Collected ps p) (hkey : p.key = none) :
    keyParts ps = [] := by
  rcases h.key with ⟨hnil, -⟩ | ⟨_, _, -, -, hsome⟩
  · exact hnil
  · rw [hkey] at hsome
    cases hsome

/-- The key so far is named by the only other part. -/
theorem Collected.keyParts_one (h : Collected ps p) {k : Key}
    (hkey : p.key = some k) :
    ∃ part, keyParts ps = [part] ∧ Named keyNames k part := by
  rcases h.key with ⟨-, hnone⟩ | ⟨part, k', hone, hk, hsome⟩
  · rw [hkey] at hnone
    cases hnone
  · rw [hkey] at hsome
    rw [Option.some.inj hsome]
    exact ⟨part, hone, hk⟩

theorem Collected.modifier (h : Collected ps p)
    (hm : Named modifierNames m part) : Collected (ps ++ [part]) (p.set m) where
  key := by
    rw [keyParts_snoc_modifier hm, key_set]
    exact h.key
  flags := by
    intro m'
    rw [flag_set, h.flags m', occurs_snoc]
    constructor
    · rintro (rfl | hold)
      · exact Or.inr hm
      · exact Or.inl hold
    · rintro (hold | hm')
      · exact Or.inr hold
      · exact Or.inl (modifier_unique hm hm')

theorem Collected.first (h : Collected ps p) (hno : NoModifier part)
    (hkey : p.key = none) {k : Key} (hk : Named keyNames k part) :
    Collected (ps ++ [part]) { p with key := some k } where
  key := by
    refine Or.inr ⟨part, k, ?_, hk, rfl⟩
    rw [keyParts_snoc_key hno, h.keyParts_nil hkey]
    rfl
  flags := by
    intro m
    rw [occurs_snoc, or_iff_left (noModifier_iff_forall.mp hno m), ← h.flags m]
    cases m <;> rfl

/-- After a second part that is no modifier, the parts are not readable. -/
theorem Collected.not_readable (h : Collected ps p) (hno : NoModifier part)
    {k : Key} (hkey : p.key = some k) : ¬ Readable (ps ++ [part]) := by
  obtain ⟨part', hone, -⟩ := h.keyParts_one hkey
  rw [Readable, keyParts_snoc_key hno, hone]
  rintro (hnil | ⟨_, _, heq, -⟩)
  · cases hnil
  · cases heq

/-- **ONE PART MORE**: it sets a flag, gives the key or is an error. -/
theorem Collected.snoc (h : Collected ps p) (hascii : Ascii part) :
    Explained (ps ++ [part]) (parsePart t.toCasing s p part) := by
  rcases noModifier_or part with hno | ⟨m, hm⟩
  · cases hkey : p.key with
    | some k =>
        obtain ⟨msg, hmsg⟩ := @parsePart_second t s part p k hascii hno hkey
        rw [hmsg]
        exact ⟨h.not_readable hno hkey, by simp⟩
    | none =>
        rw [parsePart_first hascii hno hkey]
        cases hname : parseKeyName t.toCasing (lower part) with
        | ok k => exact h.first hno hkey ((parseKeyName_iff hascii).mp hname)
        | error e =>
            refine ⟨?_, ?_⟩
            · rw [Readable, keyParts_snoc_key hno]
              rintro (hnil | ⟨part', k, hone, hk⟩)
              · exact absurd hnil (by simp)
              · rw [← (snoc_eq_singleton hone).2, ← parseKeyName_iff hascii,
                  hname] at hk
                cases hk
            · rintro rfl
              exact parseKeyName_ne hascii hname
  · rw [parsePart_modifier hascii hm]
    exact h.modifier hm

/-- **THE LOOP**: what it makes of any parts. -/
theorem explained (t : FullCasing) (s : List Char)
    (hascii : ∀ part ∈ ps, Ascii part) :
    Explained ps (ps.foldlM (parsePart t.toCasing s) Parsed.new) := by
  induction ps using List.reverseRecOn with
  | nil =>
      refine ⟨Or.inl ⟨rfl, rfl⟩, ?_⟩
      intro m
      refine iff_of_false ?_ ?_
      · cases m <;> exact Bool.false_ne_true
      · rintro ⟨part, hpart, -⟩
        cases hpart
  | append_singleton ps part ih =>
      obtain ⟨hps, hpart⟩ := List.forall_mem_append.mp hascii
      have hbefore := ih hps
      rw [List.foldlM_append]
      cases hrun : ps.foldlM (parsePart t.toCasing s) Parsed.new with
      | error e =>
          rw [hrun] at hbefore
          exact ⟨fun h => hbefore.1 h.of_snoc, hbefore.2⟩
      | ok p =>
          rw [hrun] at hbefore
          have hlast : Collected ps p := hbefore
          have hone : [part].foldlM (parsePart t.toCasing s) p
              = parsePart t.toCasing s p part := by
            rw [List.foldlM_cons]
            exact bind_pure _
          show Explained _ ([part].foldlM (parsePart t.toCasing s) p)
          rw [hone]
          exact hlast.snoc (hpart part (List.mem_singleton_self part))

theorem collected_of_ok (hascii : ∀ part ∈ ps, Ascii part)
    (hrun : ps.foldlM (parsePart t.toCasing s) Parsed.new = .ok p) :
    Collected ps p := by
  have hloop := explained t s hascii
  rwa [hrun] at hloop

theorem not_readable_of_error {e : Failure} (hascii : ∀ part ∈ ps, Ascii part)
    (hrun : ps.foldlM (parsePart t.toCasing s) Parsed.new = .error e) :
    ¬ Readable ps ∧ e ≠ .unreachable := by
  have hloop := explained t s hascii
  rwa [hrun] at hloop

end Loop

/-! ## The whole text -/

section Whole

variable {t : FullCasing} {s : List Char} {ps qs : List (List Char)}
  {chord : HotkeyChord}

theorem reads_of_collected {p : Parsed} {key : Key} (h : Collected ps p)
    (hkey : p.key = some key) :
    Reads ps ⟨p.ctrl, p.alt, p.shift, p.metaKey, key⟩ where
  key := h.keyParts_one hkey
  flags := by
    intro m
    rw [← h.flags m]
    cases m <;> rfl

/-- A text is read in one way at most. -/
theorem Reads.unique {chord' : HotkeyChord} (h : Reads ps chord)
    (h' : Reads ps chord') : chord = chord' := by
  have hflag : ∀ m, chordFlag chord m = chordFlag chord' m :=
    fun m => Bool.eq_iff_iff.mpr ((h.flags m).trans (h'.flags m).symm)
  have hkey : chord.key = chord'.key := by
    obtain ⟨part, hone, hk⟩ := h.key
    obtain ⟨part', hone', hk'⟩ := h'.key
    rw [hone] at hone'
    rw [← (List.cons.inj hone').1] at hk'
    exact Lookup.key.inj ((lookup_of_named hk).symm.trans (lookup_of_named hk'))
  have hctrl := hflag .ctrl
  have halt := hflag .alt
  have hshift := hflag .shift
  have hmeta := hflag .metaKey
  cases chord
  cases chord'
  simp only [chordFlag] at hctrl halt hshift hmeta hkey
  rw [hctrl, halt, hshift, hmeta, hkey]

theorem Reads.readable (h : Reads ps chord) : Readable ps := by
  obtain ⟨part, hone, hk⟩ := h.key
  exact Or.inr ⟨part, chord.key, hone, hk⟩

/-- Pieces put together with `+` between them. -/
def join (ps : List (List Char)) : List Char := ['+'].intercalate ps

theorem ascii_join : Ascii (join ps) ↔ ∀ p ∈ ps, Ascii p := by
  induction ps with
  | nil =>
      refine iff_of_true ?_ ?_
      · exact fun c hc => absurd hc List.not_mem_nil
      · exact fun p hp => absurd hp List.not_mem_nil
  | cons p ps ih =>
      cases ps with
      | nil => rw [join, List.intercalate_singleton, List.forall_mem_singleton]
      | cons q ps =>
          have hplus : Ascii ['+'] := by
            intro c hc
            rw [List.mem_singleton.mp hc]
            decide
          rw [join, List.intercalate_cons_cons, List.forall_mem_cons, ← ih,
            Ascii, List.forall_mem_append, List.forall_mem_append]
          constructor
          · rintro ⟨⟨hp, -⟩, hps⟩
            exact ⟨hp, hps⟩
          · rintro ⟨hp, hps⟩
            exact ⟨⟨hp, hplus⟩, hps⟩

theorem join_splitOn (s : List Char) : join (s.splitOn '+') = s :=
  List.intercalate_splitOn '+'

theorem parts_join (h : ∀ p ∈ ps, '+' ∉ p) : parts (join ps) = trimmed ps := by
  cases ps with
  | nil => rfl
  | cons p ps =>
      rw [parts, join, List.splitOn_intercalate '+' h (List.cons_ne_nil p ps)]

theorem mem_trimmed {part : List Char} (h : part ∈ trimmed ps) :
    ∃ p ∈ ps, trim p = part :=
  List.mem_map.mp (List.mem_filter.mp h).1

theorem ascii_parts (h : Ascii s) : ∀ part ∈ parts s, Ascii part := by
  intro part hpart c hc
  obtain ⟨p, hp, rfl⟩ := mem_trimmed hpart
  rw [← join_splitOn s, ascii_join] at h
  exact h p hp c (mem_of_mem_trim hc)

/-- **WHAT IS ACCEPTED**: exactly what the grammar reads. -/
theorem parseHotkey_iff (h : Ascii s) :
    parseHotkey t.toCasing s = .ok chord ↔ Reads (parts s) chord := by
  have hparts := ascii_parts h
  rw [parseHotkey]
  by_cases hnil : parts s = []
  · rw [if_pos hnil, hnil]
    refine iff_of_false (by simp) ?_
    rintro ⟨⟨part, hone, -⟩, -⟩
    cases hone
  · rw [if_neg hnil]
    cases hrun : (parts s).foldlM (parsePart t.toCasing s) Parsed.new with
    | error e =>
        have hno := (not_readable_of_error hparts hrun).1
        exact iff_of_false (by simp) fun hreads => hno hreads.readable
    | ok p =>
        have hcollected := collected_of_ok hparts hrun
        cases hkey : p.key with
        | none =>
            refine iff_of_false (by simp [hkey]) fun hreads => ?_
            obtain ⟨part, hone, -⟩ := hreads.key
            rw [hcollected.keyParts_nil hkey] at hone
            cases hone
        | some key =>
            have hreads := reads_of_collected hcollected hkey
            simp only [hkey, Except.ok.injEq]
            constructor
            · rintro rfl
              exact hreads
            · exact fun hchord => hreads.unique hchord

theorem parseHotkey_ne (h : Ascii s) :
    parseHotkey t.toCasing s ≠ .error .unreachable := by
  rw [parseHotkey]
  split
  · simp
  · split
    · rename_i e hrun
      have hne := (not_readable_of_error (ascii_parts h) hrun).2
      exact fun heq => hne (Except.error.inj heq)
    · split
      · simp
      · simp

/-- Parts of which one is no modifier and names a key are read somehow. -/
theorem readable_reads (t : FullCasing) (h : ∀ part ∈ ps, Ascii part)
    {part : List Char} {k : Key} (hone : keyParts ps = [part])
    (hk : Named keyNames k part) : ∃ chord, Reads ps chord := by
  cases hrun : ps.foldlM (parsePart t.toCasing []) Parsed.new with
  | error e =>
      have hno := (not_readable_of_error h hrun).1
      exact absurd (Or.inr ⟨part, k, hone, hk⟩) hno
  | ok p =>
      have hcollected := collected_of_ok h hrun
      cases hkey : p.key with
      | none =>
          rw [hcollected.keyParts_nil hkey] at hone
          cases hone
      | some key => exact ⟨_, reads_of_collected hcollected hkey⟩

theorem registered_iff (h : Ascii s) :
    registered t.toCasing s = some chord ↔ Reads (parts s) chord := by
  rw [← parseHotkey_iff h, registered]
  cases parseHotkey t.toCasing s with
  | error e => simp [Except.toOption]
  | ok chord' => simp [Except.toOption]

end Whole

/-! ## What does not matter -/

/-- The same modifiers occur, and the other parts are the same but for order
    and letter case. -/
structure Alike (ps qs : List (List Char)) : Prop where
  modifiers : ∀ m, (∃ part ∈ ps, Named modifierNames m part)
    ↔ ∃ part ∈ qs, Named modifierNames m part
  keys : ((keyParts ps).map lower).Perm ((keyParts qs).map lower)

/-- Changes to the pieces of a text. -/
inductive Respelled : List (List Char) → List (List Char) → Prop where
  | order {ps qs : List (List Char)} (h : ps.Perm qs) : Respelled ps qs
  /-- A modifier that occurs is repeated, perhaps by another name. -/
  | repeated {ps : List (List Char)} {q : List Char} {m : Modifier}
      (h : ∃ part ∈ trimmed ps, Named modifierNames m part)
      (hq : Named modifierNames m (trim q)) : Respelled ps (q :: ps)
  | letterCase {ps qs : List (List Char)} (h : ps.map lower = qs.map lower) :
      Respelled ps qs
  | spaces {ps qs : List (List Char)} (h : ps.map trim = qs.map trim) :
      Respelled ps qs
  /-- A piece of nothing but space is put in. -/
  | empty {ps : List (List Char)} {q : List Char} (h : trim q = []) :
      Respelled ps (q :: ps)
  | symm {ps qs : List (List Char)} (h : Respelled ps qs) : Respelled qs ps
  | trans {ps qs rs : List (List Char)} (h : Respelled ps qs)
      (h' : Respelled qs rs) : Respelled ps rs

section Alike

variable {ps qs rs : List (List Char)} {part q : List Char} {m : Modifier}

theorem Alike.refl (ps : List (List Char)) : Alike ps ps where
  modifiers := fun _ => Iff.rfl
  keys := List.Perm.refl _

theorem Alike.symm (h : Alike ps qs) : Alike qs ps where
  modifiers := fun m => (h.modifiers m).symm
  keys := h.keys.symm

theorem Alike.trans (h : Alike ps qs) (h' : Alike qs rs) : Alike ps rs where
  modifiers := fun m => (h.modifiers m).trans (h'.modifiers m)
  keys := h.keys.trans h'.keys

theorem alike_of_perm (h : ps.Perm qs) : Alike ps qs where
  modifiers := by
    intro m
    simp only [h.mem_iff]
  keys := (h.filter _).map _

/-- Names are compared in lower case. -/
theorem occurs_lower : (∃ part ∈ ps, Named modifierNames m part)
    ↔ ∃ l ∈ ps.map lower, ∃ e ∈ modifierNames, lower e.1.toList = l ∧ e.2 = m := by
  constructor
  · rintro ⟨part, hpart, e, he⟩
    exact ⟨lower part, List.mem_map_of_mem hpart, e, he⟩
  · rintro ⟨l, hl, e, he⟩
    obtain ⟨part, hpart, rfl⟩ := List.mem_map.mp hl
    exact ⟨part, hpart, e, he⟩

theorem keyParts_lower : (keyParts ps).map lower
    = (ps.map lower).filter fun l =>
        ∀ e ∈ modifierNames, lower e.1.toList ≠ l := by
  rw [List.filter_map]
  rfl

theorem alike_of_lower (h : ps.map lower = qs.map lower) : Alike ps qs where
  modifiers := by
    intro m
    rw [occurs_lower, occurs_lower, h]
  keys := by
    rw [keyParts_lower, keyParts_lower, h]

/-- One more modifier that is there already. -/
theorem alike_cons (h : ∃ part ∈ ps, Named modifierNames m part)
    (hq : Named modifierNames m q) : Alike ps (q :: ps) where
  modifiers := by
    intro m'
    simp only [List.mem_cons, or_and_right, exists_or, exists_eq_left]
    constructor
    · exact Or.inr
    · rintro (hq' | hps)
      · rw [modifier_unique hq hq']
        exact h
      · exact hps
  keys := by
    have hno : ¬ NoModifier q := fun hno => noModifier_iff_forall.mp hno m hq
    rw [keyParts, keyParts, List.filter_cons_of_neg (by simpa using hno)]

theorem trimmed_lower (ps : List (List Char)) :
    trimmed (ps.map lower) = (trimmed ps).map lower := by
  have hcomm : trim ∘ lower = lower ∘ trim := funext trim_map_toLower
  have hkept : (fun part => decide (part ≠ [])) ∘ lower
      = fun part => decide (part ≠ []) := by
    funext part
    simp only [Function.comp_apply, lower, ne_eq, List.map_eq_nil_iff]
  rw [trimmed, trimmed, List.map_map, hcomm, ← List.map_map, List.filter_map,
    hkept]

theorem trimmed_cons_empty (h : trim q = []) : trimmed (q :: ps) = trimmed ps := by
  rw [trimmed, List.map_cons, List.filter_cons_of_neg (by simpa using h)]
  rfl

theorem trimmed_cons (h : trim q ≠ []) :
    trimmed (q :: ps) = trim q :: trimmed ps := by
  rw [trimmed, List.map_cons, List.filter_cons_of_pos (by simpa using h)]
  rfl

/-- **RESPELLING** changes neither the modifiers nor the other part. -/
theorem Respelled.alike (h : Respelled ps qs) :
    Alike (trimmed ps) (trimmed qs) := by
  induction h with
  | order h => exact alike_of_perm ((h.map trim).filter _)
  | @repeated ps q m h hq =>
      by_cases hempty : trim q = []
      · rw [trimmed_cons_empty hempty]
        exact Alike.refl _
      · rw [trimmed_cons hempty]
        exact alike_cons h hq
  | letterCase h =>
      refine alike_of_lower ?_
      rw [← trimmed_lower, ← trimmed_lower, h]
  | spaces h =>
      rw [trimmed, trimmed, h]
      exact Alike.refl _
  | empty h =>
      rw [trimmed_cons_empty h]
      exact Alike.refl _
  | symm h ih => exact ih.symm
  | trans h h' ih ih' => exact ih.trans ih'

/-- What is read of parts is read of all that are alike. -/
theorem Reads.alike {chord : HotkeyChord} (h : Reads ps chord)
    (halike : Alike ps qs) : Reads qs chord where
  key := by
    obtain ⟨part, hone, e, he, hname, hk⟩ := h.key
    have hkeys := halike.keys
    rw [hone, List.map_singleton, List.singleton_perm] at hkeys
    obtain ⟨part', hone', hlower⟩ := List.map_eq_singleton_iff.mp hkeys.symm
    exact ⟨part', hone', e, he, hname.trans hlower.symm, hk⟩
  flags := fun m => (h.flags m).trans (halike.modifiers m)

end Alike

/-- What the parser makes of a text: it accepts exactly if one part is no
    modifier and names a key, the chord is what the parts say, and the order
    of the parts, repeated modifiers, letter case, space around the parts and
    empty pieces do not matter. -/
structure OrderFree (t : FullCasing) (s : List Char) : Prop where
  accepts_iff : (∃ chord, parseHotkey t.toCasing s = .ok chord)
    ↔ ∃ part k, keyParts (parts s) = [part] ∧ Named keyNames k part
  reads : ∀ chord, parseHotkey t.toCasing s = .ok chord
    ↔ Reads (parts s) chord
  reaches : parseHotkey t.toCasing s ≠ .error .unreachable
  respelled : ∀ qs, (∀ q ∈ qs, Ascii q ∧ '+' ∉ q) →
    Respelled (s.splitOn '+') qs →
      registered t.toCasing (join qs) = registered t.toCasing s

/-- **HOTKEYS ARE READ IN ANY ORDER**: for every ASCII text. -/
theorem hotkey_order_free (t : FullCasing) (s : List Char) (h : Ascii s) :
    OrderFree t s where
  accepts_iff := by
    constructor
    · rintro ⟨chord, hok⟩
      obtain ⟨part, hone, hk⟩ := ((parseHotkey_iff h).mp hok).key
      exact ⟨part, chord.key, hone, hk⟩
    · rintro ⟨part, k, hone, hk⟩
      obtain ⟨chord, hreads⟩ := readable_reads t (ascii_parts h) hone hk
      exact ⟨chord, (parseHotkey_iff h).mpr hreads⟩
  reads := fun _ => parseHotkey_iff h
  reaches := parseHotkey_ne h
  respelled := by
    intro qs hqs hrespelled
    have halike : Alike (parts s) (parts (join qs)) := by
      rw [parts_join fun q hq => (hqs q hq).2]
      exact hrespelled.alike
    have hjoin : Ascii (join qs) := ascii_join.mpr fun q hq => (hqs q hq).1
    refine Option.ext fun chord => ?_
    rw [registered_iff hjoin, registered_iff h]
    constructor
    · exact fun hreads => hreads.alike halike.symm
    · exact fun hreads => hreads.alike halike

/-- The case tables on ASCII text. -/
def asciiCasing : FullCasing where
  toUppercase s := s.map Char.toUpper
  toLowercase s := s.map Char.toLower
  toUppercase_ascii := fun _ (_ : Ascii _) => rfl
  toLowercase_ascii := fun _ _ => rfl

/-- The default hotkey, spelled otherwise. -/
theorem hotkey_order_free_default :
    OrderFree asciiCasing " alt + cTRL++f".toList ∧
      parseHotkey asciiCasing.toCasing " alt + cTRL++f".toList = .ok ctrlAltF := by
  have hall : (" alt + cTRL++f".toList.all fun c => c.toNat < 128) = true := by
    decide
  have hascii : Ascii " alt + cTRL++f".toList :=
    fun c hc => of_decide_eq_true (List.all_eq_true.mp hall c hc)
  exact ⟨hotkey_order_free asciiCasing _ hascii, by decide⟩

end KvmHotkey
