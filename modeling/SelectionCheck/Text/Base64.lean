import SelectionCheck.Text.Basic

/-!
# Base 64

Four letters stand for three bytes. The last group is filled up with equals signs, one for each
byte that is missing. Ends of lines may stand anywhere.
-/

namespace SelectionCheck.Text

def base64Value? (b : UInt8) : Option Nat :=
  if isUpper b then some (b.toNat - 0x41)
  else if isLower b then some (b.toNat - 0x47)
  else if isDigit b then some (b.toNat + 4)
  else if b = byte '+' then some 62
  else if b = byte '/' then some 63
  else none

def base64Groups? : Text → Option Text
  | [] => some []
  | a :: b :: c :: d :: rest => do
    let n := (← base64Value? a) * 4 + (← base64Value? b) / 16
    let m := (← base64Value? b) % 16
    if rest.isEmpty && c = byte '=' && d = byte '=' then some [n.toUInt8]
    else
      let k ← base64Value? c
      if rest.isEmpty && d = byte '=' then some [n.toUInt8, (m * 16 + k / 4).toUInt8]
      else
        let bytes ← base64Groups? rest
        some (n.toUInt8 :: (m * 16 + k / 4).toUInt8 ::
          (k % 4 * 64 + (← base64Value? d)).toUInt8 :: bytes)
  | _ => none

def ofBase64? (text : Text) : Option Text :=
  base64Groups? (text.filter fun b => b ≠ 0x0A && b ≠ 0x0D)

end SelectionCheck.Text
