import QueryTelemetry.Report.Columns
import QueryTelemetry.Text.Characters

/-!
# Homes and addresses

The library that stores tables reads more into the text of a path than others do. A tilde in front
stands for a home, alone for the home of the user and with a name behind it for that of an account;
the name of no account stays as it is. And a text that starts with a scheme and a colon is taken for
an address, which may lead elsewhere than its text. A scheme of one letter, or of a length that no
scheme has, counts only if there is nothing of that name and the rest of the text is that of an
address too. In an address a percent sign and two hexadecimal digits stand for a byte.
-/

set_option autoImplicit false

namespace QueryTelemetry

namespace Text

def unescape : List Char → List UInt8
  | '%' :: a :: b :: r => (16 * (hexValue? a).getD 0 + (hexValue? b).getD 0).toUInt8 :: unescape r
  | c :: r => c.toNat.toUInt8 :: unescape r
  | [] => []

def unescaped? (cs : List Char) : Option String := String.fromUTF8? ⟨(unescape cs).toArray⟩

end Text

/-- The accounts with their homes; the user has no name. -/
abbrev Homes := List (String × List String)

def Homes.of? (homes : Homes) (first : String) : Option (List String) :=
  match first.toList with
  | '~' :: name => (homes.find? fun h => h.1.toList = name).map (·.2)
  | _ => none

def Path.expandHome (homes : Homes) (path : Path) : Path :=
  match path with
  | ⟨"", first :: rest⟩ =>
    match homes.of? first with
    | some home => ⟨"/", home ++ rest⟩
    | none => path
  | _ => path

inductive Destination where
  | file (path : Path)
  /-- A place in memory, which is forgotten. -/
  | memory

namespace Address

def split? (cs : List Char) : Option (List Char × List Char) :=
  match cs.takeWhile (· ≠ ':'), cs.dropWhile (· ≠ ':') with
  | c :: s, _ :: r => if isScheme (c :: s) then some (c :: s, r) else none
  | _, _ => none

def isUsual (scheme : List Char) : Bool := 2 ≤ scheme.length && scheme.length ≤ 36

def isAddress (cs : List Char) : Bool := (split? cs).any fun p => isUsual p.1

def isPlain (c : Char) : Bool := c.isAlphanum || "-._~!$&'()*+,;=:@/?".toList.contains c

def isText (fragment : Bool) : List Char → Bool
  | [] => true
  | '%' :: a :: b :: r =>
    (Text.hexValue? a).isSome && (Text.hexValue? b).isSome && isText fragment r
  | '#' :: r => !fragment && isText true r
  | c :: r => isPlain c && isText fragment r

def parts (cs : List Char) : List Char × List Char :=
  let cs := cs.takeWhile (· ≠ '#')
  (cs.takeWhile (· ≠ '?'), (cs.dropWhile (· ≠ '?')).drop 1)

/-- One key of a query and its value. A plus is a blank here, and a zero byte ends the text. -/
def queryItem (cs : List Char) : List UInt8 × List UInt8 :=
  let cs := cs.map fun c => if c = '+' then ' ' else c
  let bytes (cs : List Char) := (Text.unescape cs).takeWhile (· ≠ 0)
  (bytes (cs.takeWhile (· ≠ '=')), bytes ((cs.dropWhile (· ≠ '=')).drop 1))

def isFlag (value : List UInt8) : Bool :=
  ["0", "1", "false", "true"].contains
    (String.ofList (value.map fun b => (Char.ofNat b.toNat).toLower))

/-- The first value of the one option that files have has to be a flag. -/
def isQuery (cs : List Char) : Bool :=
  let named := ((Text.split '&' cs).map queryItem).filter fun p =>
    p.1 = "use_mmap".toUTF8.toList && p.2 ≠ []
  (named.head?.map fun p => isFlag p.2).getD true

/-- Slashes at the end are dropped, but one slash alone is the top. -/
def trimmed (cs : List Char) : List Char :=
  if cs = ['/'] then cs else (cs.reverse.dropWhile (· = '/')).reverse

def fileAt (path query : List Char) : Except Failure Destination :=
  if !isQuery query then .error .refusedAddress
  else
    match Text.unescaped? path with
    | none => .error .invalidUtf8
    | some s =>
      let cs := trimmed s.toList
      if isAddress cs || cs.contains '\x00' then .error .refusedAddress
      else if cs.isEmpty then .error (.file .missing)
      else .ok (.file (.literal (String.ofList cs)))

/-- Memory has one folder, so a path in it is one name, whatever the name is. -/
def memoryAt (path : List Char) : Except Failure Destination :=
  match Text.unescaped? path with
  | none => .error .invalidUtf8
  | some s =>
    let cs := s.toList.dropWhile (· = '/')
    if isAddress cs then .error .refusedAddress
    else if cs.getLast? = some '/' then .error .namelessFile
    else
      match Text.split '/' cs with
      | [[]] => .error (.file .missing)
      | [_] => .ok .memory
      | names => if names.contains [] then .error .refusedAddress else .error (.file .missing)

def target (scheme rest : List Char) : Except Failure Destination :=
  if !isText false rest then .error .refusedAddress
  else
    let (path, query) := parts rest
    match String.ofList scheme with
    | "file" => if path.head? = some '/' then fileAt path query else .error .refusedAddress
    | "local" => fileAt path query
    | "mock" => memoryAt path
    | "hdfs" | "viewfs" => .error .unavailable
    | _ => .error .refusedAddress

end Address

def Path.destination (path : Path) : Work Destination :=
  match Address.split? path.text.toList with
  | none => return .file path
  | some (scheme, rest) =>
    if Address.isUsual scheme then Work.ofExcept (Address.target scheme rest)
    else do
      let present ← Work.askFiles (·.present path)
      if present || !Address.isText false rest then return .file path
      else throw .refusedAddress

end QueryTelemetry
