import Slideshow.Browser
import Slideshow.Build.Discovery
import Slideshow.Build.Report
import Slideshow.CommandLine.Basic
import Slideshow.CommandLine.Run
import Slideshow.Decimal.Basic
import Slideshow.Decimal.Binary64
import Slideshow.Decimal.Layout
import Slideshow.Decimal.Reader
import Slideshow.Decimal.Shortest
import Slideshow.Deck.Basic
import Slideshow.Deck.Error
import Slideshow.Deck.Load
import Slideshow.Deck.Merge
import Slideshow.Deck.Model
import Slideshow.Diagnostic
import Slideshow.Dictionary
import Slideshow.Files.Basic
import Slideshow.Files.Tree
import Slideshow.Json.Basic
import Slideshow.Json.Reader
import Slideshow.Main
import Slideshow.Markup.Escape
import Slideshow.Markup.Render
import Slideshow.Page
import Slideshow.Path
import Slideshow.Rule.Template
import Slideshow.Settings
import Slideshow.Settings.Load
import Slideshow.Text
import Slideshow.Yaml.Cursor
import Slideshow.Yaml.Document
import Slideshow.Yaml.Error
import Slideshow.Yaml.Node.Anchor
import Slideshow.Yaml.Node.Basic
import Slideshow.Yaml.Node.Grammar
import Slideshow.Yaml.Number
import Slideshow.Yaml.Scalar.Block
import Slideshow.Yaml.Scalar.Core
import Slideshow.Yaml.Scalar.Gap
import Slideshow.Yaml.Scalar.Plain
import Slideshow.Yaml.Scalar.Quoted
import Slideshow.Yaml.Tag
import Slideshow.Yaml.Token.Basic
import Slideshow.Yaml.Token.Directive
import Slideshow.Yaml.Token.Scanner
import Slideshow.Yaml.Value
import Slideshow.Proofs.Yaml.Equality
import Slideshow.Proofs.Yaml.Mapping
import Slideshow.Proofs.Deck.Merge
import Slideshow.Proofs.Deck.MergeFree
import Slideshow.Proofs.Deck.Load
import Slideshow.Proofs.Diagnostic
import Slideshow.Proofs.Markup.Escape
import Slideshow.Proofs.Files.Basic
import Slideshow.Proofs.Build.Report
import Slideshow.Proofs.Deck.Grammar
import Slideshow.Proofs.Files.Within
import Slideshow.Proofs.Build.Update
import Slideshow.Proofs.Build.Source
import Slideshow.Proofs.Deck.Items
import Slideshow.Proofs.Diagnostic.Silence
import Slideshow.Proofs.Dictionary
import Slideshow.Proofs.Markup.Weave
import Slideshow.Proofs.Rule.Reach
import Slideshow.Proofs.Text.Occurrence
import Slideshow.Proofs.Page.Calls
import Slideshow.Proofs.Page.Substitution
import Slideshow.Proofs.Decimal.Layout
import Slideshow.Proofs.Decimal.Interval
import Slideshow.Proofs.Decimal.Shortest
import Slideshow.Proofs.Decimal.Written
import Slideshow.Proofs.Yaml.Document
import Slideshow.Proofs.Deck.Names
import Slideshow.Proofs.Markup.Literal
import Slideshow.Proofs.CommandLine.Agreement
import Slideshow.Proofs.Json.Number
import Slideshow.Proofs.Page.Repetition
import Slideshow.Proofs.Json.Written
import Slideshow.Proofs.Deck.Model
import Slideshow.Proofs.Deck.MergeFault
import Slideshow.Proofs.Build.Failure
import Slideshow.Proofs.Build.Search
import Slideshow.Proofs.Build.Output
import Slideshow.Proofs.Deck.Stripped
import Slideshow.Proofs.Deck.Unseen
import Slideshow.Proofs.Diagnostic.Marker
import Slideshow.Proofs.Path.Component
import Slideshow.Proofs.Path.Extension
import Slideshow.Proofs.Rule.Template
import Slideshow.Proofs.Text.Slice
import Slideshow.Proofs.Rule.Reading
import Slideshow.Proofs.Deck.Element
import Slideshow.Proofs.Deck.ModelFault
import Slideshow.Proofs.Decimal.Nearest
import Slideshow.Proofs.Decimal.Fewest
import Slideshow.Proofs.Yaml.NumberText
import Slideshow.Proofs.Page.History
import Slideshow.Proofs.Rule.Registration
