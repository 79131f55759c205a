/-
Names in directories (`src/fat.rs`): paths, 8.3 names, long names, and the 32-byte
entries that hold them.

A `&str` is the list of its characters.
-/

import MachaOS.Fat.Volume

namespace MachaOS.Fat

/-- `name.len()`: bytes of the UTF-8 form. -/
def utf8Len (name : List Char) : Nat :=
  (name.map Char.utf8Size).sum

def splitPath : List Char → List (List Char)
  | [] => [[]]
  | c :: rest =>
      if c = '/' then [] :: splitPath rest
      else
        match splitPath rest with
        | [] => [[c]]
        | part :: parts => (c :: part) :: parts

/-- `path.split('/').filter(|c| !c.is_empty())` -/
def components (path : List Char) : List (List Char) :=
  (splitPath path).filter (fun part => !part.isEmpty)

def isAsciiControl (c : Char) : Bool :=
  c.toNat < 0x20 || c.toNat = 0x7F

def validateName (name : List Char) : Except Stop Unit :=
  if name.isEmpty || decide (utf8Len name > maxName) || name.head? = some '.' ||
      name.any (fun c => isAsciiControl c || c = '/') then
    .error (.error .invalidName)
  else .ok ()

def asciiLower (c : Char) : Char :=
  if 'A' ≤ c ∧ c ≤ 'Z' then Char.ofNat (c.toNat + 32) else c

def nameMatches (entryName needle : List Char) : Bool :=
  entryName.map asciiLower = needle.map asciiLower

/-- The next character of a UTF-8 text and the number of bytes it takes; malformed bytes
come out as U+FFFD, one for each maximal part of a sequence. -/
def decodeUtf8 (bytes : List (BitVec 8)) : Char × Nat :=
  let byte (index : Nat) : Nat := (bytes.getD index 0#8).toNat
  let tail (index low high : Nat) : Bool := decide (low ≤ byte index ∧ byte index ≤ high)
  let first := byte 0
  if first < 0x80 then (Char.ofNat first, 1)
  else if 0xC2 ≤ first ∧ first ≤ 0xDF then
    if tail 1 0x80 0xBF then (Char.ofNat ((first - 0xC0) * 64 + (byte 1 - 0x80)), 2)
    else ('\uFFFD', 1)
  else if 0xE0 ≤ first ∧ first ≤ 0xEF then
    let low := if first = 0xE0 then 0xA0 else 0x80
    let high := if first = 0xED then 0x9F else 0xBF
    if tail 1 low high then
      if tail 2 0x80 0xBF then
        (Char.ofNat ((first - 0xE0) * 4096 + (byte 1 - 0x80) * 64 + (byte 2 - 0x80)), 3)
      else ('\uFFFD', 2)
    else ('\uFFFD', 1)
  else if 0xF0 ≤ first ∧ first ≤ 0xF4 then
    let low := if first = 0xF0 then 0x90 else 0x80
    let high := if first = 0xF4 then 0x8F else 0xBF
    if tail 1 low high then
      if tail 2 0x80 0xBF then
        if tail 3 0x80 0xBF then
          (Char.ofNat ((first - 0xF0) * 262144 + (byte 1 - 0x80) * 4096 +
            (byte 2 - 0x80) * 64 + (byte 3 - 0x80)), 4)
        else ('\uFFFD', 3)
      else ('\uFFFD', 2)
    else ('\uFFFD', 1)
  else ('\uFFFD', 1)

/-- `String::from_utf8_lossy`, over at most `left` characters. -/
def fromUtf8Lossy : Nat → List (BitVec 8) → List Char
  | 0, _ => []
  | _ + 1, [] => []
  | left + 1, bytes =>
      (decodeUtf8 bytes).1 :: fromUtf8Lossy left (bytes.drop (decodeUtf8 bytes).2)

def beforeSpace (bytes : List (BitVec 8)) : List (BitVec 8) :=
  bytes.takeWhile (fun byte => byte ≠ 0x20#8)

def sfnName (sfn : List (BitVec 8)) : List Char :=
  let stem := beforeSpace (sfn.take 8)
  let ext := beforeSpace (sfn.drop 8)
  fromUtf8Lossy stem.length stem ++
    (if ext.isEmpty then [] else '.' :: fromUtf8Lossy ext.length ext)

def lfnChar (word : BitVec 16) : Char :=
  if word.toNat < 0x80 then Char.ofNat word.toNat else '?'

def endsName (word : BitVec 16) : Bool :=
  word = 0x0000#16 || word = 0xFFFF#16

def assembleLfn (parts : List (List (BitVec 16))) : List Char :=
  (parts.flatten.takeWhile (fun word => !endsName word)).map lfnChar

def isSfnChar (c : Char) : Bool :=
  ('0' ≤ c && c ≤ '9') || ('A' ≤ c && c ≤ 'Z') || ('a' ≤ c && c ≤ 'z') ||
    c ∈ ['$', '%', '\'', '-', '_', '@', '~', '`', '!', '(', ')', '{', '}', '^', '#', '&']

/-- `to_ascii_uppercase` of a character that may stand in a short name. -/
def asciiUpperByte (c : Char) : BitVec 8 :=
  BitVec.ofNat 8 (if 'a' ≤ c ∧ c ≤ 'z' then c.toNat - 32 else c.toNat)

/-- The first `count` usable characters, padded with spaces. -/
def sfnField (count : Nat) (text : List Char) : List (BitVec 8) :=
  let used := ((text.filter isSfnChar).take count).map asciiUpperByte
  used ++ List.replicate (count - used.length) 0x20#8

def splitLastDot (name : List Char) : List Char × List Char :=
  if '.' ∈ name then
    let ext := (name.reverse.takeWhile (fun c => c ≠ '.')).reverse
    (name.take (name.length - ext.length - 1), ext)
  else (name, [])

def makeSfn (name : List Char) : List (BitVec 8) :=
  sfnField 8 (splitLastDot name).1 ++ sfnField 3 (splitLastDot name).2

def sfnChecksum (sfn : List (BitVec 8)) : BitVec 8 :=
  sfn.foldl (fun sum byte => (sum &&& 1#8) <<< 7 ||| sum >>> 1 |> (· + byte)) 0#8

def le16 (word : BitVec 16) : List (BitVec 8) :=
  [word.extractLsb' 0 8, word.extractLsb' 8 8]

def le32 (word : BitVec 32) : List (BitVec 8) :=
  [word.extractLsb' 0 8, word.extractLsb' 8 8, word.extractLsb' 16 8, word.extractLsb' 24 8]

def lfnEntryBytes (seq : BitVec 8) (part : List (BitVec 16)) (isLast : Bool)
    (checksum : BitVec 8) : List (BitVec 8) :=
  [seq ||| (if isLast then 0x40#8 else 0#8)] ++ (part.take 5).flatMap le16 ++
    [0x0F#8, 0#8, checksum] ++ ((part.drop 5).take 6).flatMap le16 ++ [0#8, 0#8] ++
    (part.drop 11).flatMap le16

/-- `fat_datetime`: the date and the time word. -/
def fatDatetime (now : DateTime) : BitVec 16 × BitVec 16 :=
  let year := min (now.year - 1980) 127
  (BitVec.ofNat 16 (year * 512 ||| (now.month % 16) * 32 ||| now.day % 32),
    BitVec.ofNat 16 ((now.hour % 32) * 2048 ||| (now.minute % 64) * 32 ||| now.second / 2 % 32))

/-- The `i`th part of a long name: up to 13 characters, a terminator in the last part when
there is room, and filler. -/
def lfnPart (chars : List (BitVec 16)) (i : Nat) (isLast : Bool) : List (BitVec 16) :=
  let used := (chars.drop (i * 13)).take 13
  let ended := if isLast ∧ used.length < 13 then used ++ [0x0000#16] else used
  ended ++ List.replicate (13 - ended.length) 0xFFFF#16

def lfnChars (name : List Char) : List (BitVec 16) :=
  name.map (fun c => BitVec.ofNat 16 c.toNat)

def lfnEntries (name : List Char) : List (List (BitVec 8)) :=
  let chars := lfnChars name
  let count := (chars.length + 12) / 13
  (List.range count).reverse.map (fun i =>
    lfnEntryBytes (BitVec.ofNat 8 (i + 1)) (lfnPart chars i (i + 1 = count)) (i + 1 = count)
      (sfnChecksum (makeSfn name)))

def sfnEntry (name : List Char) (firstCluster size : Nat) (isDir : Bool) (now : DateTime) :
    List (BitVec 8) :=
  let date := le16 (fatDatetime now).1
  let time := le16 (fatDatetime now).2
  let cluster := le32 (BitVec.ofNat 32 firstCluster)
  makeSfn name ++ [if isDir then 0x10#8 else 0x20#8] ++ [0#8, 0#8] ++ time ++ date ++ date ++
    cluster.drop 2 ++ time ++ date ++ cluster.take 2 ++ le32 (BitVec.ofNat 32 size)

/-- All entries `write_dir_entries` puts into the directory. -/
def dirEntryBytes (name : List Char) (firstCluster size : Nat) (isDir : Bool) (now : DateTime) :
    List (List (BitVec 8)) :=
  lfnEntries name ++ [sfnEntry name firstCluster size isDir now]

end MachaOS.Fat
