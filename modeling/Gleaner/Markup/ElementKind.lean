/-
# Kinds of HTML elements

The names that the rules for reading HTML treat apart: elements without content, those whose start
ends a paragraph, those whose end may be left out, and those that bound the view of an end tag.
Every name that stands in none of these lists is ordinary: its start tag opens an element, and its
end tag closes it with what is open inside.

Key definitions: `isVoid`, `isBlock`, `isSpecial`, `mayOmitEnd`, `boundsScope`.
-/

namespace Gleaner.Markup

/-- An element that has no content and no end tag. -/
def isVoid (name : String) : Bool :=
  name ∈ ["area", "base", "basefont", "bgsound", "br", "col", "embed", "frame", "hr", "img",
    "input", "keygen", "link", "meta", "param", "source", "track", "wbr"]

/-- An element of the head. -/
def isMetadata (name : String) : Bool :=
  name ∈ ["base", "basefont", "bgsound", "link", "meta"]

/-- An element of the head whose content is no markup. -/
def isRawMetadata (name : String) : Bool :=
  name ∈ ["title", "style", "script", "noframes", "noscript"]

/-- One of the six headings. -/
def isHeading (name : String) : Bool :=
  name ∈ ["h1", "h2", "h3", "h4", "h5", "h6"]

/-- An element whose start tag ends a paragraph and whose end tag ends what is open inside. -/
def isBlock (name : String) : Bool :=
  name ∈ ["address", "article", "aside", "blockquote", "center", "details", "dialog", "dir", "div",
    "dl", "fieldset", "figcaption", "figure", "footer", "header", "hgroup", "main", "menu", "nav",
    "ol", "search", "section", "summary", "ul", "pre", "listing"]

/-- An element with a view of its own, closed by its end tag with all that is open inside. -/
def isEnclosure (name : String) : Bool :=
  name ∈ ["applet", "marquee", "object"]

/-- A row group of a table. -/
def isRowGroup (name : String) : Bool :=
  name ∈ ["tbody", "tfoot", "thead"]

/-- A cell of a table. -/
def isCell (name : String) : Bool :=
  name ∈ ["td", "th"]

/-- A part of a table, which has no meaning outside of one. -/
def isTablePart (name : String) : Bool :=
  name ∈ ["caption", "col", "colgroup", "tbody", "td", "tfoot", "th", "thead", "tr"]

/-- A table, or a part of one other than its columns. -/
def isTableBox (name : String) : Bool :=
  name == "table" || (isTablePart name && name != "col" && name != "colgroup")

/-- An element whose end tag may be left out in front of an outer end. -/
def mayOmitEnd (name : String) : Bool :=
  name ∈ ["dd", "dt", "li", "optgroup", "option", "p", "rb", "rp", "rt", "rtc"]

/-- An element that ends the view of an end tag of another name. -/
def isSpecial (name : String) : Bool :=
  isVoid name || isHeading name || (isBlock name && name != "dialog" && name != "search") ||
  isEnclosure name || isTablePart name ||
  name ∈ ["body", "button", "dd", "dt", "form", "frameset", "head", "html", "iframe", "isindex",
    "li", "noembed", "noframes", "noscript", "p", "plaintext", "script", "select", "style", "table",
    "template", "textarea", "title", "xmp"]

/-- An element that bounds the view from inside it. -/
def boundsScope (name : String) : Bool :=
  isEnclosure name || isCell name || name ∈ ["caption", "html", "table", "template"]

/-- An element that bounds the view of a paragraph's end. -/
def boundsParagraph (name : String) : Bool :=
  boundsScope name || name == "button"

/-- An element that bounds the view of a list item's end. -/
def boundsItem (name : String) : Bool :=
  boundsScope name || name ∈ ["ol", "ul"]

/-- An element that bounds the view of a table part's end. -/
def boundsTable (name : String) : Bool :=
  name ∈ ["html", "table", "template"]

end Gleaner.Markup
