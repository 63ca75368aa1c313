import Osp.Lib.Quoting

/-!
# Comparing entity tags

`etag_is_equal` of `etag.c`: the entity tag of a response is compared with the members of an `If-Match` or `If-None-Match` list. Strings
are the bytes before their NUL.
-/

namespace Osp.Lighttpd

open Osp.Lib

/-! ## The comparison -/

/-- The states of the scan; while a member is being compared, `tok` is what is left of the tag. -/
inductive EtagState
  | start
  | check (tok : Bytes)
  | checkQuoted (tok : Bytes)
  | skip
  | skipQuoted
  | tail

/-- The white space between the members of a list. -/
def etagBlank (c : UInt8) : Bool := c = 32 || c = 9 || c = 13 || c = 10

/-- The loop of `etag_is_equal`, for a tag whose text and last quote are `tokStart`. There is no result where it reads the byte after
the NUL of the tag. -/
def etagLoop (weakOk : Bool) (tokStart : Bytes) : EtagState → Bytes → Option Bool
  | _, [] => some false
  | .start, c :: line =>
    if c = 87 then
      match line with
      | 47 :: 34 :: line => etagLoop weakOk tokStart (if weakOk then .check tokStart else .skip) line
      | _ => some false
    else if c = 34 then etagLoop weakOk tokStart (.check tokStart) line
    else if etagBlank c || c = 44 then etagLoop weakOk tokStart .start line
    else some false
  | .check tok, c :: line =>
    if c = 92 then
      etagLoop weakOk tokStart (if tok.head? = some c then .checkQuoted tok.tail else .skipQuoted) line
    else if c = 34 then
      match tok with
      | [] => none
      | t :: tok =>
        -- a member that ends before the tag does ends the whole comparison
        if tok ≠ [] then some false
        else if t = c then some true
        else etagLoop weakOk tokStart .tail line
    else etagLoop weakOk tokStart (if tok.head? = some c then .check tok.tail else .skip) line
  | .checkQuoted tok, c :: line =>
    etagLoop weakOk tokStart (if tok.head? = some c then .check tok.tail else .skip) line
  | .skip, c :: line =>
    etagLoop weakOk tokStart (if c = 92 then .skipQuoted else if c = 34 then .tail else .skip) line
  | .skipQuoted, _ :: line => etagLoop weakOk tokStart .skip line
  | .tail, c :: line =>
    if c = 44 then etagLoop weakOk tokStart .start line
    else if etagBlank c then etagLoop weakOk tokStart .tail line
    else some false

/-- The tag from its first quote on. -/
def etagCompare (weakOk : Bool) (line : Bytes) : Bytes → Option Bool
  | 34 :: tokStart => etagLoop weakOk tokStart .start line
  | _ => some false

/-- `etag_is_equal`; the response may have no entity tag. -/
def etagIsEqual (etag : Option Bytes) (line : Bytes) (weakOk : Bool) : Option Bool :=
  if line = [42] then some true
  else
    match etag with
    | none => some false
    | some (87 :: tok) => if weakOk ∧ tok.head? = some 47 then etagCompare weakOk line tok.tail else some false
    | some tok => etagCompare weakOk line tok

/-! ## Entity tags and lists of them -/

/-- An entity tag: a text without quotes, and whether the tag is weak. -/
structure EntityTag where
  weak : Bool
  text : Bytes
  quoteFree : 34 ∉ text

namespace EntityTag

def bytes (t : EntityTag) : Bytes := (if t.weak then [87, 47] else []) ++ 34 :: (t.text ++ [34])

/-- No backslash of the text takes the last quote with it. -/
def Closed (t : EntityTag) : Prop := QuotedText t.text

/-- The tags have one text and, unless weak tags may be compared, none of the two is weak. -/
def Same (weakOk : Bool) (tag m : EntityTag) : Prop :=
  m.text = tag.text ∧ (weakOk = false → tag.weak = false ∧ m.weak = false)

instance (weakOk : Bool) (tag m : EntityTag) : Decidable (Same weakOk tag m) := inferInstanceAs (Decidable (_ ∧ _))

/-- The member is compared with the tag and its text is a proper beginning of the tag's text. -/
def Short (weakOk : Bool) (tag m : EntityTag) : Prop :=
  (weakOk = true ∨ m.weak = false) ∧ m.text <+: tag.text ∧ m.text ≠ tag.text

instance (weakOk : Bool) (tag m : EntityTag) : Decidable (Short weakOk tag m) := inferInstanceAs (Decidable (_ ∧ _ ∧ _))

end EntityTag

/-- A list of entity tags: commas and white space may stand before and after each member, and a comma stands between two of them. -/
inductive TagList : List EntityTag → Bytes → Prop
  | nil {seps : Bytes} (hseps : ∀ c ∈ seps, etagBlank c ∨ c = 44) : TagList [] seps
  | last {seps blanks : Bytes} (t : EntityTag) (hseps : ∀ c ∈ seps, etagBlank c ∨ c = 44) (hblanks : ∀ c ∈ blanks, etagBlank c) :
    TagList [t] (seps ++ (t.bytes ++ blanks))
  | cons {seps blanks line : Bytes} {ms : List EntityTag} (t : EntityTag) (hseps : ∀ c ∈ seps, etagBlank c ∨ c = 44)
    (hblanks : ∀ c ∈ blanks, etagBlank c) (h : TagList ms line) : TagList (t :: ms) (seps ++ (t.bytes ++ (blanks ++ 44 :: line)))

end Osp.Lighttpd
