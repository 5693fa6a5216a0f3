import KvmRs.EnvelopeProofs

/-! # Keys and buttons on both sides of the wire

    The server names keys by `rdev::Key` and buttons by `rdev::Button`; the
    client injects `enigo::Key` and `enigo::Button`.  What travels between
    them is the canonical evdev-style code of `key_to_code`, which the client
    turns back with `code_to_key`.  The client's table depends on its
    platform. -/

namespace KvmKeymap

open KvmEnvelope (MouseButton)

/-- `rdev::Key`. -/
inductive Key where
  | escape | num1 | num2 | num3 | num4 | num5 | num6 | num7 | num8 | num9
  | num0 | minus | equal | backspace | tab | keyQ | keyW | keyE | keyR | keyT
  | keyY | keyU | keyI | keyO | keyP | leftBracket | rightBracket | return
  | controlLeft | keyA | keyS | keyD | keyF | keyG | keyH | keyJ | keyK
  | keyL | semiColon | quote | backQuote | shiftLeft | backSlash | keyZ
  | keyX | keyC | keyV | keyB | keyN | keyM | comma | dot | slash
  | shiftRight | kpMultiply | alt | space | capsLock | f1 | f2 | f3 | f4 | f5
  | f6 | f7 | f8 | f9 | f10 | numLock | scrollLock | kp7 | kp8 | kp9
  | kpMinus | kp4 | kp5 | kp6 | kpPlus | kp1 | kp2 | kp3 | kp0 | kpDelete
  | intlBackslash | f11 | f12 | kpReturn | controlRight | kpDivide
  | printScreen | altGr | home | upArrow | pageUp | leftArrow | rightArrow
  | endKey | downArrow | pageDown | insert | delete | pause | metaLeft
  | metaRight | function
  | unknown (n : UInt32)
  deriving DecidableEq

/-- `rdev::Button`. -/
inductive Button where
  | left | right | middle
  | unknown (n : UInt8)
  deriving DecidableEq

/-- The canonical code of a server key; the addition wraps as `u32`. -/
def keyToCode : Key → UInt32
  | .escape => 1
  | .num1 => 2
  | .num2 => 3
  | .num3 => 4
  | .num4 => 5
  | .num5 => 6
  | .num6 => 7
  | .num7 => 8
  | .num8 => 9
  | .num9 => 10
  | .num0 => 11
  | .minus => 12
  | .equal => 13
  | .backspace => 14
  | .tab => 15
  | .keyQ => 16
  | .keyW => 17
  | .keyE => 18
  | .keyR => 19
  | .keyT => 20
  | .keyY => 21
  | .keyU => 22
  | .keyI => 23
  | .keyO => 24
  | .keyP => 25
  | .leftBracket => 26
  | .rightBracket => 27
  | .return => 28
  | .controlLeft => 29
  | .keyA => 30
  | .keyS => 31
  | .keyD => 32
  | .keyF => 33
  | .keyG => 34
  | .keyH => 35
  | .keyJ => 36
  | .keyK => 37
  | .keyL => 38
  | .semiColon => 39
  | .quote => 40
  | .backQuote => 41
  | .shiftLeft => 42
  | .backSlash => 43
  | .keyZ => 44
  | .keyX => 45
  | .keyC => 46
  | .keyV => 47
  | .keyB => 48
  | .keyN => 49
  | .keyM => 50
  | .comma => 51
  | .dot => 52
  | .slash => 53
  | .shiftRight => 54
  | .kpMultiply => 55
  | .alt => 56
  | .space => 57
  | .capsLock => 58
  | .f1 => 59
  | .f2 => 60
  | .f3 => 61
  | .f4 => 62
  | .f5 => 63
  | .f6 => 64
  | .f7 => 65
  | .f8 => 66
  | .f9 => 67
  | .f10 => 68
  | .numLock => 69
  | .scrollLock => 70
  | .kp7 => 71
  | .kp8 => 72
  | .kp9 => 73
  | .kpMinus => 74
  | .kp4 => 75
  | .kp5 => 76
  | .kp6 => 77
  | .kpPlus => 78
  | .kp1 => 79
  | .kp2 => 80
  | .kp3 => 81
  | .kp0 => 82
  | .kpDelete => 83
  | .intlBackslash => 86
  | .f11 => 87
  | .f12 => 88
  | .kpReturn => 96
  | .controlRight => 97
  | .kpDivide => 98
  | .printScreen => 99
  | .altGr => 100
  | .home => 102
  | .upArrow => 103
  | .pageUp => 104
  | .leftArrow => 105
  | .rightArrow => 106
  | .endKey => 107
  | .downArrow => 108
  | .pageDown => 109
  | .insert => 110
  | .delete => 111
  | .pause => 119
  | .metaLeft => 125
  | .metaRight => 126
  | .function => 464
  | .unknown n => 0x10000 + n

/-- The server's wire button for a captured button. -/
def convertMouseButton : Button → MouseButton
  | .left => .left
  | .right => .right
  | .middle => .middle
  | .unknown n =>
      if n = 4 then .back
      else if n = 5 then .forward
      else .left

/-! ## The client's table -/

/-- The `cfg` targets that the client's table distinguishes. -/
inductive Platform where
  | windows | linux | macos
  deriving DecidableEq

/-- The part of `enigo::Key` that the client injects. -/
inductive EnigoKey where
  | unicode (c : Char)
  | escape | backspace | tab | return | lControl | rControl | lShift
  | rShift | alt | metaKey | space | capsLock
  | f1 | f2 | f3 | f4 | f5 | f6 | f7 | f8 | f9 | f10 | f11 | f12
  | f13 | f14 | f15 | f24
  | numpad0 | numpad1 | numpad2 | numpad3 | numpad4
  | numpad5 | numpad6 | numpad7 | numpad8 | numpad9
  | multiply | subtract | add | divide | decimal
  | numlock | scroll | scrollLock | print | pause
  | insert | help | delete | function
  | home | endKey | pageUp | pageDown
  | upArrow | downArrow | leftArrow | rightArrow
  deriving DecidableEq

/-- `enigo::Button`, as far as the client uses it. -/
inductive EnigoButton where
  | left | right | middle | back | forward
  deriving DecidableEq

/-- Numpad digits exist on Windows only; elsewhere the digit character. -/
def numpadDigit (p : Platform) (d : Nat) : EnigoKey :=
  match p with
  | .windows =>
      match d with
      | 0 => .numpad0
      | 1 => .numpad1
      | 2 => .numpad2
      | 3 => .numpad3
      | 4 => .numpad4
      | 5 => .numpad5
      | 6 => .numpad6
      | 7 => .numpad7
      | 8 => .numpad8
      | _ => .numpad9
  | _ => .unicode (Char.ofNat (48 + min d 9))

/-- A key that Windows has and for which other targets fall back. -/
def windowsOr (p : Platform) (win other : EnigoKey) : EnigoKey :=
  match p with
  | .windows => win
  | _ => other

/-- A key that macOS lacks and replaces by another one. -/
def macosOr (p : Platform) (mac other : EnigoKey) : EnigoKey :=
  match p with
  | .macos => mac
  | _ => other

def numpadMultiply (p : Platform) : EnigoKey := windowsOr p .multiply (.unicode '*')
def numpadMinus (p : Platform) : EnigoKey := windowsOr p .subtract (.unicode '-')
def numpadPlus (p : Platform) : EnigoKey := windowsOr p .add (.unicode '+')
def numpadDivide (p : Platform) : EnigoKey := windowsOr p .divide (.unicode '/')
def numpadDelete (p : Platform) : EnigoKey := windowsOr p .decimal .delete
def printScreenKey (p : Platform) : EnigoKey := macosOr p .f13 .print
def pauseKey (p : Platform) : EnigoKey := macosOr p .f15 .pause
def insertKey (p : Platform) : EnigoKey := macosOr p .help .insert
def functionKey (p : Platform) : EnigoKey := macosOr p .function .f24

def numlockKey : Platform → Option EnigoKey
  | .windows => some .numlock
  | .linux => some .numlock
  | .macos => none

def scrollLockKey : Platform → EnigoKey
  | .windows => .scroll
  | .linux => .scrollLock
  | .macos => .f14

/-- The client key of a canonical code; codes from `0x10000` on are the
    server's unknown keys and are dropped. -/
def codeToKey (p : Platform) (code : UInt32) : Option EnigoKey :=
  if 0x10000 ≤ code then none
  else
    match code with
    | 1 => some .escape
    | 2 => some (.unicode '1')
    | 3 => some (.unicode '2')
    | 4 => some (.unicode '3')
    | 5 => some (.unicode '4')
    | 6 => some (.unicode '5')
    | 7 => some (.unicode '6')
    | 8 => some (.unicode '7')
    | 9 => some (.unicode '8')
    | 10 => some (.unicode '9')
    | 11 => some (.unicode '0')
    | 12 => some (.unicode '-')
    | 13 => some (.unicode '=')
    | 14 => some .backspace
    | 15 => some .tab
    | 16 => some (.unicode 'q')
    | 17 => some (.unicode 'w')
    | 18 => some (.unicode 'e')
    | 19 => some (.unicode 'r')
    | 20 => some (.unicode 't')
    | 21 => some (.unicode 'y')
    | 22 => some (.unicode 'u')
    | 23 => some (.unicode 'i')
    | 24 => some (.unicode 'o')
    | 25 => some (.unicode 'p')
    | 26 => some (.unicode '[')
    | 27 => some (.unicode ']')
    | 28 => some .return
    | 29 => some .lControl
    | 30 => some (.unicode 'a')
    | 31 => some (.unicode 's')
    | 32 => some (.unicode 'd')
    | 33 => some (.unicode 'f')
    | 34 => some (.unicode 'g')
    | 35 => some (.unicode 'h')
    | 36 => some (.unicode 'j')
    | 37 => some (.unicode 'k')
    | 38 => some (.unicode 'l')
    | 39 => some (.unicode ';')
    | 40 => some (.unicode (Char.ofNat 39))
    | 41 => some (.unicode (Char.ofNat 96))
    | 42 => some .lShift
    | 43 => some (.unicode '\\')
    | 44 => some (.unicode 'z')
    | 45 => some (.unicode 'x')
    | 46 => some (.unicode 'c')
    | 47 => some (.unicode 'v')
    | 48 => some (.unicode 'b')
    | 49 => some (.unicode 'n')
    | 50 => some (.unicode 'm')
    | 51 => some (.unicode ',')
    | 52 => some (.unicode '.')
    | 53 => some (.unicode '/')
    | 54 => some .rShift
    | 55 => some (numpadMultiply p)
    | 56 => some .alt
    | 57 => some .space
    | 58 => some .capsLock
    | 59 => some .f1
    | 60 => some .f2
    | 61 => some .f3
    | 62 => some .f4
    | 63 => some .f5
    | 64 => some .f6
    | 65 => some .f7
    | 66 => some .f8
    | 67 => some .f9
    | 68 => some .f10
    | 69 => numlockKey p
    | 70 => some (scrollLockKey p)
    | 71 => some (numpadDigit p 7)
    | 72 => some (numpadDigit p 8)
    | 73 => some (numpadDigit p 9)
    | 74 => some (numpadMinus p)
    | 75 => some (numpadDigit p 4)
    | 76 => some (numpadDigit p 5)
    | 77 => some (numpadDigit p 6)
    | 78 => some (numpadPlus p)
    | 79 => some (numpadDigit p 1)
    | 80 => some (numpadDigit p 2)
    | 81 => some (numpadDigit p 3)
    | 82 => some (numpadDigit p 0)
    | 83 => some (numpadDelete p)
    | 86 => some (.unicode '\\')
    | 87 => some .f11
    | 88 => some .f12
    | 96 => some .return
    | 97 => some .rControl
    | 98 => some (numpadDivide p)
    | 99 => some (printScreenKey p)
    | 100 => some .alt
    | 102 => some .home
    | 103 => some .upArrow
    | 104 => some .pageUp
    | 105 => some .leftArrow
    | 106 => some .rightArrow
    | 107 => some .endKey
    | 108 => some .downArrow
    | 109 => some .pageDown
    | 110 => some (insertKey p)
    | 111 => some .delete
    | 119 => some (pauseKey p)
    | 125 => some .metaKey
    | 126 => some .metaKey
    | 464 => some (functionKey p)
    | _ => none

/-- The client's button for a wire button. -/
def convertWireButton : MouseButton → EnigoButton
  | .left => .left
  | .right => .right
  | .middle => .middle
  | .back => .back
  | .forward => .forward

/-! ## Images: what a physical key or button becomes on the client -/

/-- The client key that a captured key ends up as, if any. -/
def keyImage (p : Platform) (k : Key) : Option EnigoKey :=
  codeToKey p (keyToCode k)

/-- The client button that a captured button ends up as. -/
def buttonImage (b : Button) : EnigoButton :=
  convertWireButton (convertMouseButton b)

end KvmKeymap
