import ScopedStyles.Proofs.Grammar.Content
import ScopedStyles.Source.Pending
import ScopedStyles.Text.Blank

/-!
# The grammar of sources

The pieces of a source are its chunks without the blanks at their ends. The grammar says which rows
of pieces are the content of a block: a row of declarations, each ended by a semicolon, and of
blocks, each between its braces. The last declaration of a content may lack its semicolon; it then
stands in front of whatever ends the content.

Which blocks a content may hold depends on the block around it.

* A body holds rule sets, animations and groups; the content of a group is a body.
* A rule set holds rule sets.
* An animation holds steps.
* A step holds no blocks.

## Main definitions

* `Piece`, `Source.pieces`, `Source.lastPiece` — what the grammar is about.
* `Declares`, `Heads` — what a single piece says.
* `Level`, `Level.Holds`, `Derives` — the grammar.
-/

namespace ScopedStyles

/-- A text without blanks at its ends, and the delimiter after it. -/
structure Piece where
  text : Text
  delimiter : Delimiter
  deriving DecidableEq, Repr

/-- The piece that a chunk is. -/
def Chunk.piece (chunk : Chunk) : Piece :=
  ⟨chunk.text.trim, chunk.delimiter⟩

/-- The pieces of a source. -/
def Source.pieces (source : Text) : List Piece :=
  (chunks source).map Chunk.piece

/-- What follows the last delimiter of a source. -/
def Source.lastPiece (source : Text) : Text :=
  (remainder source).trim

/-- A declaration has text that is not blank on both sides of its first colon. -/
structure Declares (text property value : Text) : Prop where
  exists_cut : ∃ before after : Text, text = before ++ ':' :: after ∧ ':' ∉ before ∧
    before.trim = property ∧ after.trim = value
  property_ne_nil : property ≠ []
  value_ne_nil : value ≠ []

/-- What a text says in front of an opening brace. At-rules are known by what they start with. -/
inductive Heads : Text → Head → Prop
  | selector {text : Text} (hne : text ≠ []) (hat : text.head? ≠ some '@') :
      Heads text (.selector text)
  | keyframes (name : Text) : Heads (keyframesKeyword ++ name) (.keyframes name.trim)
  | group (type : GroupType) (query : Text) :
      Heads (type.keyword ++ query) (.group type query.trim)

/-- What a content is the content of. -/
inductive Level
  | body
  | ruleSet
  | keyframes
  | step
  deriving DecidableEq, Repr

/-- The blocks that a content may hold, with what the content of each is the content of. -/
inductive Level.Holds : Level → Head → Level → Prop
  | rule (selector : Text) : Holds .body (.selector selector) .ruleSet
  | nested (selector : Text) : Holds .ruleSet (.selector selector) .ruleSet
  | step (selector : Text) : Holds .keyframes (.selector selector) .step
  | keyframes (name : Text) : Holds .body (.keyframes name) .keyframes
  | group (type : GroupType) (query : Text) : Holds .body (.group type query) .body

/-- Some pieces, and the text in front of what ends the content, are a content of a level. -/
inductive Derives : Level → Content → List Piece → Text → Prop
  | nil {level : Level} : Derives level .nil [] []
  | last {level : Level} {text property value : Text} (h : Declares text property value) :
      Derives level (.declaration property value .nil) [] text
  | declaration {level : Level} {rest : Content} {pieces : List Piece}
      {text property value last : Text} (h : Declares text property value)
      (hrest : Derives level rest pieces last) :
      Derives level (.declaration property value rest) (⟨text, .semicolon⟩ :: pieces) last
  | block {level inside : Level} {head : Head} {inner rest : Content}
      {innerPieces pieces : List Piece} {text innerLast last : Text} (h : Heads text head)
      (hholds : level.Holds head inside) (hinner : Derives inside inner innerPieces innerLast)
      (hrest : Derives level rest pieces last) :
      Derives level (.block head inner rest)
        (⟨text, .openBrace⟩ :: (innerPieces ++ ⟨innerLast, .closeBrace⟩ :: pieces)) last

/-- A source has a content. -/
def Source.Says (source : Text) (content : Content) : Prop :=
  Derives .body content (pieces source) (lastPiece source)

end ScopedStyles
