import Slideshow.Deck.Load
import Slideshow.Deck.Model
import Slideshow.Markup.Render
import Slideshow.Page

/-! What scripts of a web page can call: decks without rules, and pages whose positions are whole
numbers of thirty-two bits. -/

namespace Slideshow.Browser

/-- Why a deck has no model in JSON. -/
inductive ModelError
  | load (cause : LoadError)
  | key (cause : KeyError)
  deriving DecidableEq, Repr

def ModelError.message : ModelError → String
  | load e => e.message
  | key e => e.message

/-- The JSON text of the deck that a text writes. -/
def model (text : String) : Except ModelError String :=
  match Deck.read text with
  | .error e => .error (.load e)
  | .ok deck =>
    match deck.toJson with
    | .error e => .error (.key e)
    | .ok json => .ok json.compact

/-- The markup as it stands in a template literal. -/
def compile (text : String) : Except LoadError String := return (← Deck.read text).compile .empty

/-- The markup, not escaped. -/
def renderHtml (text : String) : Except LoadError String := return (← Deck.read text).render .empty

/-- The module that exports the markup. -/
def compileModule (text : String) : Except LoadError String :=
  return (← Deck.read text).toModule .empty

/-- Queues a fragment at a position, or else at the default position. -/
def insert (page : Page) (content : String) : Option Int32 → Page
  | some position => page.insertAt content position.toInt
  | none => page.insert content

def setDefaultPosition (page : Page) (position : Int32) : Page := page.setDefault position.toInt

/-- Puts all fragments in, and gives the markup that results. -/
def flush (page : Page) : Page × String :=
  let flushed := page.flush.1
  (flushed, flushed.markup)

end Slideshow.Browser
