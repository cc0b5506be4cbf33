import TemplateLexer.Byte
import TemplateLexer.Event

/-!
# Modes of a scan

A scan is in exactly one mode, which says how the next byte is read. The reserved modes belong to
markup that is not told apart yet, such as comments and raw-text elements; no byte leads into one of
them, and a byte met there is read as text.
-/

set_option autoImplicit false

namespace TemplateLexer

/-- The two marks that can enclose the value of an attribute. -/
inductive QuoteMark where
  | double
  | single
  deriving DecidableEq, Repr

/-- The byte of a quotation mark. -/
def QuoteMark.byte : QuoteMark → UInt8
  | .double => Byte.doubleQuote
  | .single => Byte.singleQuote

/-- The way of writing a value that a quotation mark stands for. -/
def QuoteMark.quote : QuoteMark → Quote
  | .double => .double
  | .single => .single

/-- The modes kept for markup that is not told apart yet. -/
inductive ReservedMode where
  | beforeDeclaration
  | inDeclaration
  | inProcessingInstruction
  | beforeComment
  | cdataSequence
  | inSpecialComment
  | inCommentLike
  | beforeSpecialS
  | beforeSpecialT
  | specialStartSequence
  | inRcdata
  | inEntity
  | inRootTagName
  deriving DecidableEq, Repr

/-- How the next byte of a template is read. -/
inductive Mode where
  /-- Plain text, where a scan begins. -/
  | text
  /-- Part of the opening marker has been read. -/
  | interpolationOpen
  | interpolation
  /-- Inside an interpolation, part of the closing marker has been read. -/
  | interpolationClose
  /-- Behind the opening of a tag. -/
  | beforeTagName
  | inTagName
  /-- Behind a slash in an opening tag. -/
  | inSelfClosingTag
  /-- Behind the opening of a closing tag. -/
  | beforeClosingTagName
  | inClosingTagName
  | afterClosingTagName
  | beforeAttrName
  | inAttrName
  /-- In the long form of the name of a directive. -/
  | inDirName
  | inDirArg
  /-- In the argument of a directive, inside brackets. -/
  | inDirDynamicArg
  | inDirModifier
  | afterAttrName
  /-- Behind the sign that announces a value. -/
  | beforeAttrValue
  | inQuotedValue (mark : QuoteMark)
  | inBareValue
  /-- In markup that is not told apart yet. -/
  | reserved (mode : ReservedMode)
  deriving DecidableEq, Repr

/-- The name under which a reserved mode is listed. -/
def ReservedMode.name : ReservedMode → String
  | beforeDeclaration => "BeforeDeclaration"
  | inDeclaration => "InDeclaration"
  | inProcessingInstruction => "InProcessingInstruction"
  | beforeComment => "BeforeComment"
  | cdataSequence => "CdataSequence"
  | inSpecialComment => "InSpecialComment"
  | inCommentLike => "InCommentLike"
  | beforeSpecialS => "BeforeSpecialS"
  | beforeSpecialT => "BeforeSpecialT"
  | specialStartSequence => "SpecialStartSequence"
  | inRcdata => "InRcdata"
  | inEntity => "InEntity"
  | inRootTagName => "InSfcRootTagName"

/-- The reserved modes in the order of their listing. -/
def ReservedMode.all : List ReservedMode :=
  [beforeDeclaration, inDeclaration, inProcessingInstruction, beforeComment, cdataSequence,
    inSpecialComment, inCommentLike, beforeSpecialS, beforeSpecialT, specialStartSequence, inRcdata,
    inEntity, inRootTagName]

namespace Mode

/-- The name under which a mode is listed. -/
def name : Mode → String
  | text => "Text"
  | interpolationOpen => "InterpolationOpen"
  | interpolation => "Interpolation"
  | interpolationClose => "InterpolationClose"
  | beforeTagName => "BeforeTagName"
  | inTagName => "InTagName"
  | inSelfClosingTag => "InSelfClosingTag"
  | beforeClosingTagName => "BeforeClosingTagName"
  | inClosingTagName => "InClosingTagName"
  | afterClosingTagName => "AfterClosingTagName"
  | beforeAttrName => "BeforeAttrName"
  | inAttrName => "InAttrName"
  | inDirName => "InDirName"
  | inDirArg => "InDirArg"
  | inDirDynamicArg => "InDirDynamicArg"
  | inDirModifier => "InDirModifier"
  | afterAttrName => "AfterAttrName"
  | beforeAttrValue => "BeforeAttrValue"
  | inQuotedValue .double => "InAttrValueDq"
  | inQuotedValue .single => "InAttrValueSq"
  | inBareValue => "InAttrValueNq"
  | reserved mode => mode.name

/-- The modes in the order of their listing, the reserved ones last. -/
def all : List Mode :=
  [text, interpolationOpen, interpolation, interpolationClose, beforeTagName, inTagName,
    inSelfClosingTag, beforeClosingTagName, inClosingTagName, afterClosingTagName, beforeAttrName,
    inAttrName, inDirName, inDirArg, inDirDynamicArg, inDirModifier, afterAttrName, beforeAttrValue,
    inQuotedValue .double, inQuotedValue .single, inBareValue] ++ ReservedMode.all.map reserved

/-- The listing of the modes leaves none out. -/
theorem mem_all (m : Mode) : m ∈ all := by
  cases m with
  | inQuotedValue mark => cases mark <;> decide
  | reserved mode => cases mode <;> decide
  | _ => decide

end Mode

end TemplateLexer
