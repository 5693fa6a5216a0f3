import Mathlib.Algebra.Group.Nat.Defs
import KvmRs.TextProofs

/-! # Addresses

    `host:port`, bare hosts, and bracketed or bare IPv6 literals: how the
    client reads an address and how it writes the one it uses as a key. -/

namespace KvmAddr

open KvmText

/-- `u16::from_str`: decimal digits, with an optional `+` in front. -/
def parseU16 (s : List Char) : Option UInt16 :=
  let digits := match s with
    | '+' :: rest => rest
    | _ => s
  if digits = [] ∨ digits.all Char.isDigit = false then none
  else
    let n := digits.foldl (fun n c => 10 * n + (c.toNat - '0'.toNat)) 0
    if n < 2 ^ 16 then some (UInt16.ofNat n) else none

/-- `str::split_once`. -/
def splitOnce (c : Char) (s : List Char) : Option (List Char × List Char) :=
  match s.dropWhile (· ≠ c) with
  | [] => none
  | _ :: after => some (s.takeWhile (· ≠ c), after)

/-- `str::rsplit_once`. -/
def rsplitOnce (c : Char) (s : List Char) : Option (List Char × List Char) :=
  (splitOnce c s.reverse).map fun (after, before) =>
    (before.reverse, after.reverse)

/-- What is wrong with the address `s`. -/
def invalidAddress (s why : List Char) : List Char :=
  "invalid address '".toList ++ s ++ "': ".toList ++ why

def invalidPort (s port : List Char) : List Char :=
  "invalid port in '".toList ++ s ++ "': '".toList ++ port ++ "'".toList

/-- Split `s` into a host and a port, with `defaultPort` when `s` carries
    none. -/
def parseHostPort (s : List Char) (defaultPort : UInt16) :
    Except (List Char) (List Char × UInt16) :=
  let s := trim s
  match s with
  | [] => .error "empty address".toList
  | '[' :: rest =>
      match splitOnce ']' rest with
      | none => .error (invalidAddress s "missing closing ']'".toList)
      | some ([], _) => .error (invalidAddress s "empty host".toList)
      | some (host, after) =>
          match after with
          | [] => .ok (host, defaultPort)
          | ':' :: p =>
              match parseU16 p with
              | some port => .ok (host, port)
              | none => .error (invalidPort s p)
          | _ =>
              .error (invalidAddress s "unexpected trailing characters".toList)
  | _ =>
      -- several colons without brackets are a bare IPv6 literal
      if s.count ':' ≠ 1 then .ok (s, defaultPort)
      else
        match rsplitOnce ':' s with
        | none => .ok (s, defaultPort)
        | some ([], _) => .error (invalidAddress s "empty host".toList)
        | some (host, p) =>
            match parseU16 p with
            | some port => .ok (host, port)
            | none => .error (invalidPort s p)

/-- Format a host and a port into a connectable string; IPv6 hosts are
    bracketed. -/
def formatHostPort (host : List Char) (port : UInt16) : List Char :=
  if ':' ∈ host then
    "[".toList ++ host ++ "]:".toList ++ Nat.toDigits 10 port.toNat
  else host ++ ":".toList ++ Nat.toDigits 10 port.toNat

/-! ## Cutting at the last colon -/

theorem splitOnce_append {c : Char} {before after : List Char}
    (h : c ∉ before) :
    splitOnce c (before ++ c :: after) = some (before, after) := by
  have hall : ∀ x ∈ before, decide (x ≠ c) = true := by
    intro x hx
    refine decide_eq_true ?_
    rintro rfl
    exact h hx
  have hdrop : (before ++ c :: after).dropWhile (fun x => decide (x ≠ c))
      = c :: after := by
    rw [List.dropWhile_append_of_pos hall]
    simp
  have htake : (before ++ c :: after).takeWhile (fun x => decide (x ≠ c))
      = before := by
    rw [List.takeWhile_append_of_pos hall]
    simp
  simp only [splitOnce, hdrop, htake]

/-- Cutting at the last `c` undoes appending a `c` and something without
    one. -/
theorem rsplitOnce_append {c : Char} {before after : List Char}
    (h : c ∉ after) :
    rsplitOnce c (before ++ c :: after) = some (before, after) := by
  have hrev : (before ++ c :: after).reverse
      = after.reverse ++ c :: before.reverse := by simp
  have hnot : c ∉ after.reverse := by rwa [List.mem_reverse]
  rw [rsplitOnce, hrev, splitOnce_append hnot]
  simp

/-- A port reads back from its decimal digits. -/
theorem parseU16_toDigits (port : UInt16) :
    parseU16 (Nat.toDigits 10 port.toNat) = some port := by
  have hdigit : ∀ c ∈ Nat.toDigits 10 port.toNat, c.isDigit = true :=
    fun c hc => Nat.isDigit_of_mem_toDigits (by decide) (by decide) hc
  have hall : (Nat.toDigits 10 port.toNat).all Char.isDigit = true :=
    List.all_eq_true.mpr hdigit
  have hval : (Nat.toDigits 10 port.toNat).foldl
      (fun n c => 10 * n + (c.toNat - '0'.toNat)) 0 = port.toNat :=
    Nat.ofDigitChars_ten_toDigits
  have hplus : (match Nat.toDigits 10 port.toNat with
      | '+' :: rest => rest
      | _ => Nat.toDigits 10 port.toNat) = Nat.toDigits 10 port.toNat := by
    split
    · rename_i rest heq
      have hbad := hdigit '+' (by rw [heq]; exact List.mem_cons_self)
      exact absurd hbad (by decide)
    · rfl
  simp only [parseU16, hplus, hval, hall]
  rw [if_neg (by simp [Nat.toDigits_ne_nil]), if_pos port.toNat_lt,
    UInt16.ofNat_toNat]

example : parseHostPort "example.com:4100".toList 4000
    = .ok ("example.com".toList, 4100) := rfl

example : parseHostPort "fe80::1:2:3".toList 4000
    = .ok ("fe80::1:2:3".toList, 4000) := rfl

example : parseHostPort (formatHostPort "::1".toList 4000) 0
    = .ok ("::1".toList, 4000) := rfl

end KvmAddr
