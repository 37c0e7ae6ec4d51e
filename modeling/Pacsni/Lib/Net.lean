import Pacsni.Lib.Text

/-! # IP addresses in text form

`net.ParseIP` of Go and the address classes that `IP.IsGlobalUnicast` and `IP.IsPrivate` test. An
address is its 16 bytes; an IPv4 address is the mapped IPv6 address `::ffff:a.b.c.d`. -/

namespace Pacsni.Lib.Net

open Pacsni.Lib.Text

/-- The 16 bytes of an address. -/
abbrev IP := List UInt8

/-- The value of a decimal digit. -/
def digit (c : Char) : Option ℕ := if '0' ≤ c ∧ c ≤ '9' then some (c.toNat - '0'.toNat) else none

/-- The value of a hexadecimal digit. -/
def hexDigit (c : Char) : Option ℕ :=
  if '0' ≤ c ∧ c ≤ '9' then some (c.toNat - '0'.toNat)
  else if 'a' ≤ c ∧ c ≤ 'f' then some (c.toNat - 'a'.toNat + 10)
  else if 'A' ≤ c ∧ c ≤ 'F' then some (c.toNat - 'A'.toNat + 10)
  else none

/-- A field of a dotted address: decimal, at most 255, without a leading zero. -/
def octet (s : Str) : Option UInt8 :=
  match s.mapM digit with
  | none => none
  | some [] => none
  | some (0 :: _ :: _) => none
  | some ds =>
    let n := ds.foldl (fun n d => n * 10 + d) 0
    if n ≤ 255 then some (UInt8.ofNat n) else none

/-- The four bytes of a dotted address. -/
def parseIPv4Fields (s : Str) : Option (List UInt8) :=
  match (s.splitOn '.').mapM octet with
  | some [a, b, c, d] => some [a, b, c, d]
  | _ => none

/-- The prefix of the mapped addresses. -/
def v4InV6 : List UInt8 := List.replicate 10 0 ++ [0xff, 0xff]

def parseIPv4 (s : Str) : Option IP := (parseIPv4Fields s).map (v4InV6 ++ ·)

/-- The hexadecimal digits at the front, their value, and the rest. -/
def hexRun (s : Str) : List ℕ × Str :=
  ((s.takeWhile fun c => (hexDigit c).isSome).filterMap hexDigit,
    s.dropWhile fun c => (hexDigit c).isSome)

/-- The address with the gap `::` behind its first `e` bytes filled. -/
def fillGap (bytes : List UInt8) : Option ℕ → Option IP
  | none => if bytes.length = 16 then some bytes else none
  | some e =>
    if bytes.length < 16 then
      some (bytes.take e ++ List.replicate (16 - bytes.length) 0 ++ bytes.drop e)
    else none

/-- The groups of an IPv6 address, at most `k` more: `bytes` are the groups so far, `gap` is the
position of the `::`, if there was one. -/
def groups : ℕ → Str → List UInt8 → Option ℕ → Option IP
  | 0, s, bytes, gap => if s = [] then fillGap bytes gap else none
  | k + 1, s, bytes, gap =>
    match hexRun s with
    | ([], _) => none
    | (ds, rest) =>
      if 4 < ds.length then none
      else if rest.head? = some '.' then
        if gap = none ∧ bytes.length ≠ 12 then none
        else if 16 < bytes.length + 4 then none
        else (parseIPv4Fields s).bind fun b => fillGap (bytes ++ b) gap
      else
        let n := ds.foldl (fun n d => n * 16 + d) 0
        let bytes := bytes ++ [UInt8.ofNat (n / 256), UInt8.ofNat (n % 256)]
        match rest with
        | [] => fillGap bytes gap
        | ':' :: ':' :: t =>
          if gap ≠ none then none
          else if t = [] then fillGap bytes (some bytes.length)
          else groups k t bytes (some bytes.length)
        | ':' :: c :: t => groups k (c :: t) bytes gap
        | _ => none

def parseIPv6 : Str → Option IP
  | [':', ':'] => some (List.replicate 16 0)
  | ':' :: ':' :: s => groups 8 s [] (some 0)
  | s => groups 8 s [] none

/-- `net.ParseIP` -/
def parseIP (s : Str) : Option IP :=
  match s.find? fun c => c = '.' ∨ c = ':' ∨ c = '%' with
  | some '.' => parseIPv4 s
  | some ':' => if '%' ∈ s then none else parseIPv6 s
  | _ => none

/-- `IP.To4` -/
def to4 (ip : IP) : Option (List UInt8) := if ip.take 12 = v4InV6 then some (ip.drop 12) else none

/-- `IP.IsGlobalUnicast`: neither broadcast, unspecified, loopback, multicast nor link-local. -/
def isGlobalUnicast (ip : IP) : Bool :=
  match to4 ip with
  | some [a, b, c, d] =>
    !([255, 255, 255, 255].isEqv [a, b, c, d] (· == ·)) &&
      !([0, 0, 0, 0].isEqv [a, b, c, d] (· == ·)) &&
      a != 127 && !(a &&& 0xf0 == 0xe0) && !(a == 169 && b == 254)
  | _ =>
    ip != List.replicate 16 0 && ip != List.replicate 15 0 ++ [1] && ip.headD 0 != 0xff &&
      !(ip.headD 0 == 0xfe && (ip.getD 1 0) &&& 0xc0 == 0x80)

/-- `IP.IsPrivate`: the ranges of RFC 1918 and RFC 4193. -/
def isPrivate (ip : IP) : Bool :=
  match to4 ip with
  | some [a, b, _, _] => a == 10 || (a == 172 && b &&& 0xf0 == 16) || (a == 192 && b == 168)
  | _ => (ip.headD 0) &&& 0xfe == 0xfc

end Pacsni.Lib.Net
