import GridLookup.Text.Lines

namespace GridLookup.Yaml

/-!
# Tags

What a document says about the kind of a node, in front of the node.

* `Tag` — a complete tag.
* `Tag.core` — the tags that every document knows.
* `Tag.name?` — the name that a tag of a document's own gives.
-/

/-- A tag is a run of bytes.  Percent signs can write any byte, so it need not be UTF-8. -/
abbrev Tag := List UInt8

namespace Tag

/-- The tag that ASCII characters spell. -/
def spelling (text : String) : Tag := text.toList.map fun c => UInt8.ofNat c.toNat

/-- A tag of the kinds that every document knows. -/
def core (kind : String) : Tag := spelling ("tag:yaml.org,2002:" ++ kind)

/-- The front of a tag up to its first zero byte, which ends it. -/
def beforeZero (tag : Tag) : Tag := tag.takeWhile fun byte => byte != 0

/-- The name that a tag of a document's own gives, if it is a text: what follows the exclamation
    mark (the byte `0x21`), or the mark itself where nothing follows. -/
def name? (tag : Tag) : Option String :=
  match tag with
  | [0x21] => some "!"
  | 0x21 :: name => (textOfBytes? name).map String.ofList
  | _ => none

end Tag

end GridLookup.Yaml
