import SelectionCheck.Text.Basic

/-!
# Addresses to listen on

An address is a host and a port with a colon between them. A host that contains colons stands in
brackets. The port is a number below 65536 or the name of a service; without any address the name
is `http`. A host of four numbers has to belong to the machine itself.
-/

namespace SelectionCheck

inductive AddressFault
  | missingPort
  | tooManyColons
  | missingBracket
  | unexpectedOpen
  | unexpectedClose
  | invalidPort (port : Text)
  | unknownPort (port : Text)
  | unassignable (host : Text) (port : Nat)
deriving DecidableEq, Repr

namespace AddressFault

def message (address : Text) (fault : AddressFault) : Text :=
  let about (subject reason : Text) : Text := "listen tcp: address " ++ subject ++ ": " ++ reason
  match fault with
  | .missingPort => about address "missing port in address"
  | .tooManyColons => about address "too many colons in address"
  | .missingBracket => about address "missing ']' in address"
  | .unexpectedOpen => about address "unexpected '[' in address"
  | .unexpectedClose => about address "unexpected ']' in address"
  | .invalidPort port => about port "invalid port"
  | .unknownPort port => "listen tcp: lookup tcp/" ++ port ++ ": unknown port"
  | .unassignable host port =>
    "listen tcp " ++ host ++ ":" ++ Text.ofNat port ++ ": bind: cannot assign requested address"

end AddressFault

namespace Address

open Text (byte)

/-- What is wrong with the brackets of an address, given its part behind an opening bracket at its
head. -/
def bracketFault? (inside : Text) : Option AddressFault :=
  if !inside.contains (byte ']') then some .missingBracket
  else
    match (inside.dropWhile (· != byte ']')).tail with
    | [] => some .missingPort
    | b :: port =>
      if b != byte ':' then some .missingPort
      else if port.contains (byte ':') then some .tooManyColons
      else if inside.contains (byte '[') then some .unexpectedOpen
      else if port.contains (byte ']') then some .unexpectedClose
      else none

def port (address : Text) : Text :=
  (address.reverse.takeWhile (· != byte ':')).reverse

def divisionFault? (address : Text) : Option AddressFault :=
  if !address.contains (byte ':') then some .missingPort
  else
    match address with
    | [] => some .missingPort
    | b :: rest =>
      if b = byte '[' then bracketFault? rest
      else if 1 < address.count (byte ':') then some .tooManyColons
      else if address.contains (byte '[') then some .unexpectedOpen
      else if address.contains (byte ']') then some .unexpectedClose
      else none

/-- The limit from which on the number of a port is not counted further. -/
def portLimit : UInt32 := 0x40000000

/-- The number of digits, behind digits of the given value, or none if something else stands among
them. Digits are counted with 32 bits until the limit is reached; the rest does not matter then. -/
def digitsValue? : (value : UInt32) → Text → Option UInt32
  | value, [] => some value
  | value, b :: rest =>
    if !Text.isDigit b then none
    else if portLimit ≤ value then some portLimit
    else
      let tens := value * 10
      let next := tens + (b.toUInt32 - 0x30)
      if next < tens then some portLimit else digitsValue? next rest

/-- The number of a port, which is none if it is out of range, unless the port is no number. -/
def portNumber? (port : Text) : Option (Option Nat) :=
  match port with
  | [] => some (some 0)
  | b :: rest =>
    let limit : UInt32 := if b = byte '-' then 0 else 65535
    (digitsValue? 0 (if b = byte '-' || b = byte '+' then rest else port)).map fun n =>
      if n ≤ limit then some n.toNat else none

def services : List (Text × Nat) :=
  [("ftp", 21), ("ftps", 990), ("gopher", 70), ("http", 80), ("https", 443), ("imap2", 143),
    ("imap3", 220), ("imaps", 993), ("pop3", 110), ("pop3s", 995), ("smtp", 25),
    ("submissions", 465), ("ssh", 22), ("telnet", 23)]

def portOf (port : Text) : Except AddressFault Nat :=
  match portNumber? port with
  | some (some n) => .ok n
  | some none => .error (.invalidPort port)
  | none =>
    match services.lookup (port.map Text.toLower) with
    | some n => .ok n
    | none => .error (.unknownPort port)

def octet? (text : Text) : Option Nat :=
  let n := text.foldl (fun n b => n * 10 + (b.toNat - 0x30)) 0
  if text.all Text.isDigit && n < 256 && Text.ofNat n = text then some n else none

/-- Whether the host is one of four numbers that no interface of a machine has: it is not that of
any or of the own machine, nor one of many machines. -/
def isForeign (host : Text) : Bool :=
  match (host.splitOn (byte '.')).mapM octet? with
  | some [a, b, c, d] =>
    a != 127 && [a, b, c, d] != [0, 0, 0, 0] && !(224 ≤ a && a < 240) &&
      [a, b, c, d] != [255, 255, 255, 255]
  | _ => false

def host (address : Text) : Text :=
  (address.reverse.dropWhile (· != byte ':')).tail.reverse

def addressFault? (address : Text) : Option AddressFault :=
  (divisionFault? address).or
    (match portOf (port address) with
    | .error fault => some fault
    | .ok n =>
      if isForeign (host address) then some (.unassignable (host address) n) else none)

def fault? (address : Text) : Option Text :=
  if address.isEmpty then none else (addressFault? address).map (·.message address)

end Address

end SelectionCheck
