import OpenAlice.Data.Scanned
import OpenAlice.Transfer.Secrets

/-!
# The feed parser

`parseRSSXml` of `src/domain/news/collector/rss-parser.ts`.  A text is the list of its units of
UTF-16, as the regular expressions see it.  None of these has a choice that is undone, but for the
attribute: what is written between two tags is the shortest text, and everything else is forced.

`Date` is a parameter.
-/

namespace OpenAlice.News.Feed

open OpenAlice.Data
open OpenAlice.Transfer (utf16)

abbrev Text := List Nat

/-! ## Units -/

/-- The units of ASCII up to case: what the flag `i` does to a pattern of ASCII. -/
def lower (u : Nat) : Nat := if 65 ≤ u ∧ u ≤ 90 then u + 32 else u

/-- `\s`, and what `trim` takes away. -/
def isSpace (u : Nat) : Bool :=
  [0x9, 0xA, 0xB, 0xC, 0xD, 0x20, 0xA0, 0x1680, 0x2028, 0x2029, 0x202F, 0x205F, 0x3000,
    0xFEFF].contains u || (0x2000 ≤ u && u ≤ 0x200A)

def trim (text : Text) : Text := trimBy isSpace text

/-- `\d` -/
def isDigit (u : Nat) : Bool := 48 ≤ u && u ≤ 57

/-- `[0-9a-fA-F]` -/
def isHexDigit (u : Nat) : Bool := isDigit u || (97 ≤ lower u && lower u ≤ 102)

def digitValue (u : Nat) : Nat := if isDigit u then u - 48 else lower u - 87

def stripText (text : String) : Text → Option Text := strip lower (utf16 text)

def stripExact (text : String) : Text → Option Text := strip id (utf16 text)

/-! ## Entities -/

def toNumber (n : Nat) : Nat :=
  if n < Nat.pow 2 53 then n
  else
    let unit := Nat.pow 2 (n.log2 - 52)
    let q := n / unit
    let r := n % unit
    if 2 * r < unit ∨ (2 * r = unit ∧ q % 2 = 0) then q * unit else (q + 1) * unit

/-- `String.fromCharCode` of digits to a base. -/
def fromCharCode (base : Nat) (digits : Text) : Text :=
  [toNumber (digits.foldl (fun n u ↦ n * base + digitValue u) 0) % 0x10000]

/-- `/&name;/` and its replacement. -/
def namedEntity (name : String) (out : Text) (s : Text) : Option (Text × Text) :=
  (stripExact name s).map (out, ·)

/-- `/&#(\d+);/` and `/&#x([0-9a-fA-F]+);/`, with their replacements. -/
def numericEntity (opening : String) (isDigit : Nat → Bool) (base : Nat) (s : Text) :
    Option (Text × Text) :=
  match stripExact opening s with
  | none => none
  | some s =>
    match s.takeWhile isDigit, s.dropWhile isDigit with
    | [], _ => none
    | _ :: _, [] => none
    | u :: digits, v :: rest =>
      if v = 59 then some (fromCharCode base (u :: digits), rest) else none

def namedEntities : List (String × Nat) :=
  [("&amp;", 38), ("&lt;", 60), ("&gt;", 62), ("&quot;", 34), ("&apos;", 39)]

def decodeNamed (entities : List (String × Nat)) (text : Text) : Text :=
  entities.foldl (fun text entity ↦ replaceAll (namedEntity entity.1 [entity.2]) text) text

/-- `/&#(\d+);/` -/
def decimalEntity : Text → Option (Text × Text) := numericEntity "&#" isDigit 10

/-- `/&#x([0-9a-fA-F]+);/` -/
def hexEntity : Text → Option (Text × Text) := numericEntity "&#x" isHexDigit 16

def decodeXmlEntities (text : Text) : Text :=
  replaceAll hexEntity (replaceAll decimalEntity (decodeNamed namedEntities text))

/-! ## HTML -/

/-- `/<[^>]+>/` -/
def htmlTag : Text → Option (Text × Text)
  | 60 :: s =>
    match s.takeWhile (· != 62), s.dropWhile (· != 62) with
    | _ :: _, _ :: rest => some ([], rest)
    | _, _ => none
  | _ => none

def stripHtml (html : Text) : Text := trim (replaceAll htmlTag html)

def cleanText (raw : Text) : Text := decodeXmlEntities (stripHtml raw)

/-! ## Tags -/

/-- `<tag[^>]*>` -/
def openTag (tag : String) (s : Text) : Option Text :=
  match stripText ("<" ++ tag) s with
  | none => none
  | some s =>
    match s.dropWhile (· != 62) with
    | [] => none
    | _ :: rest => some rest

/-- `</tag>` -/
def closeTag (tag : String) : Text → Option Text := stripText ("</" ++ tag ++ ">")

/-- `\]\]>\s*</tag>` -/
def closeCdata (tag : String) (s : Text) : Option Text :=
  match stripText "]]>" s with
  | none => none
  | some s => closeTag tag (s.dropWhile isSpace)

/-- `cdataRegex`, and what it captures. -/
def cdataElement (tag : String) (s : Text) : Option Text :=
  match openTag tag s with
  | none => none
  | some s =>
    match stripText "<![cdata[" (s.dropWhile isSpace) with
    | none => none
    | some s => (upTo (closeCdata tag) s).map Prod.fst

/-- `regex`, and what it captures. -/
def plainElement (tag : String) (s : Text) : Option Text :=
  match openTag tag s with
  | none => none
  | some s => (upTo (closeTag tag) s).map Prod.fst

def extractTagRaw (xml : Text) (tag : String) : Option Text :=
  match search (cdataElement tag) xml with
  | some content => some (trim content)
  | none => (search (plainElement tag) xml).map trim

def extractTag (xml : Text) (tag : String) : Option Text :=
  match search (cdataElement tag) xml with
  | some content => some (trim content)
  | none => (search (plainElement tag) xml).map fun content ↦ decodeXmlEntities (trim content)

/-- `[^>]*attr="([^"]*)"`: the last place counts. -/
def lastAttr (attr : String) : Text → Option Text
  | [] => none
  | u :: s =>
    let here :=
      match stripText (attr ++ "=\"") (u :: s) with
      | none => none
      | some s => if s.contains 34 then some (s.takeWhile (· != 34)) else none
    if u = 62 then here else (lastAttr attr s).or here

def extractAttr (xml : Text) (tag attr : String) : Option Text :=
  search (fun s ↦ (stripText ("<" ++ tag) s).bind (lastAttr attr)) xml

/-! ## Items -/

structure ParsedFeedItem where
  title : Text
  content : Text
  link : Option Text
  guid : Option Text
  pubDate : Option Int

/-- `<(?:item|entry)[\s>]` -/
def openItem (s : Text) : Option Text :=
  match (stripText "<item" s).or (stripText "<entry" s) with
  | some (u :: rest) => if isSpace u || u == 62 then some rest else none
  | _ => none

/-- `</(?:item|entry)>` -/
def closeItem (s : Text) : Option Text := (stripText "</item>" s).or (stripText "</entry>" s)

/-- `itemRegex`: the block, and what is left behind it. -/
def itemElement (s : Text) : Option (Text × Text) := (openItem s).bind (upTo closeItem)

/-- The blocks that `exec` finds, one after the other. -/
def itemBlocks (s : Text) : List Text :=
  match search itemElement s with
  | none => []
  | some (block, rest) =>
    if rest.length < s.length then block :: itemBlocks rest else [block]
termination_by s.length

/-- A text that is missing or empty is no date, and one that `Date` does not read. -/
def parseDate (date : Text → Option Int) : Option Text → Option Int
  | none | some [] => none
  | some text => date text

def parseItem (date : Text → Option Int) (block : Text) : ParsedFeedItem where
  title := cleanText ((extractTagRaw block "title").getD [])
  content := cleanText
    (((((extractTagRaw block "content:encoded").or (extractTagRaw block "description")).or
      (extractTagRaw block "summary")).or (extractTagRaw block "content")).getD [])
  link := (extractTag block "link").or (extractAttr block "link" "href")
  guid := (extractTag block "guid").or (extractTag block "id")
  pubDate := parseDate date
    (((extractTag block "pubdate").or (extractTag block "published")).or
      (extractTag block "updated"))

def parseRSSXml (date : Text → Option Int) (xml : Text) : List ParsedFeedItem :=
  (itemBlocks xml).map (parseItem date)

end OpenAlice.News.Feed
