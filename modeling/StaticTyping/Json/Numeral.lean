/-!
# Numerals

The numbers of the format: an optional minus, digits without a leading zero, and then possibly a
fraction and an exponent.
-/

namespace StaticTyping
namespace Json

def isExponent : List Char → Bool
  | [] => true
  | e :: rest =>
      let digits := match rest with
        | '+' :: r => r
        | '-' :: r => r
        | r => r
      (e == 'e' || e == 'E') && !digits.isEmpty && digits.all Char.isDigit

def isFraction : List Char → Bool
  | '.' :: rest =>
      !(rest.takeWhile Char.isDigit).isEmpty && isExponent (rest.dropWhile Char.isDigit)
  | rest => isExponent rest

def isUnsigned (cs : List Char) : Bool :=
  match cs.takeWhile Char.isDigit with
  | [] => false
  | ['0'] => isFraction (cs.dropWhile Char.isDigit)
  | '0' :: _ => false
  | _ => isFraction (cs.dropWhile Char.isDigit)

def isNumeral : List Char → Bool
  | '-' :: rest => isUnsigned rest
  | cs => isUnsigned cs

def ofDigits (cs : List Char) : Nat :=
  cs.foldl (fun n c => n * 10 + (c.toNat - 48)) 0

def natural? (digits : String) : Option Nat :=
  let cs := digits.toList
  if !cs.isEmpty && cs.all Char.isDigit then some (ofDigits cs) else none

end Json
end StaticTyping
