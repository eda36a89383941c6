import SelectorMangling.Main
import SelectorMangling.Proofs.Rewriting.Place
import SelectorMangling.Proofs.Rewriting.Greedy
import SelectorMangling.Proofs.Code
import SelectorMangling.Proofs.Json.Number
import SelectorMangling.Proofs.Json.Reader
import SelectorMangling.Proofs.Catalog.Format
import SelectorMangling.Proofs.Catalog.Consistency
import SelectorMangling.Proofs.Catalog.Growth
import SelectorMangling.Proofs.Catalog.Numbering
import SelectorMangling.Proofs.Extraction.Candidate
import SelectorMangling.Proofs.FileTree.Bare
import SelectorMangling.Proofs.FileTree.Content
import SelectorMangling.Proofs.Catalog.Store
import SelectorMangling.Proofs.Site.Scan
import SelectorMangling.Proofs.Site.Build
import SelectorMangling.Proofs.Site.Rewrite
import SelectorMangling.Proofs.Catalog.Stability
import SelectorMangling.Proofs.Site.Mangle
import SelectorMangling.Proofs.Site.History
import SelectorMangling.Proofs.Catalog.Reserved
import SelectorMangling.Proofs.Path.Direct
import SelectorMangling.Proofs.Site.RoundTrip
import SelectorMangling.Proofs.FileTree.Plain
import SelectorMangling.Proofs.FileTree.Listing
import SelectorMangling.Proofs.FileTree.Written
import SelectorMangling.Proofs.FileTree.Directories
import SelectorMangling.Proofs.Catalog.Saving
import SelectorMangling.Proofs.Settings.Located
import SelectorMangling.Proofs.Site.Source
import SelectorMangling.Proofs.Site.Traversal
import SelectorMangling.Proofs.Site.Stages
import SelectorMangling.Proofs.Site.AllOrNothing
import SelectorMangling.Proofs.Site.Agreement
import SelectorMangling.Proofs.Catalog.Streams
import SelectorMangling.Proofs.Site.Additions
import SelectorMangling.Proofs.Site.Increments
import SelectorMangling.Proofs.Path.Spelling
import SelectorMangling.Proofs.Site.Reference
import SelectorMangling.Proofs.Site.Ignored
import SelectorMangling.Proofs.Extraction.Token
import SelectorMangling.Proofs.Rewriting.Token
import SelectorMangling.Proofs.Site.WholeWords
import SelectorMangling.Proofs.Catalog.Spelling
import SelectorMangling.Proofs.Site.Making
import SelectorMangling.Proofs.Rewriting.Splice
import SelectorMangling.Proofs.Rewriting.Shrinking
import SelectorMangling.Proofs.Rewriting.Delimiter
import SelectorMangling.Proofs.Site.Surroundings
import SelectorMangling.Proofs.Rewriting.Landing
import SelectorMangling.Proofs.Rewriting.Awakening
import SelectorMangling.Proofs.Extraction.Beginning
import SelectorMangling.Proofs.Site.Repetition
import SelectorMangling.Proofs.Extraction.Excerpt
import SelectorMangling.Proofs.Rewriting.ClassName
import SelectorMangling.Proofs.Site.Interruption
import SelectorMangling.Proofs.Site.Confinement
import SelectorMangling.Proofs.Site.Effects
import SelectorMangling.Proofs.Extraction.Length
import SelectorMangling.Proofs.Catalog.CodeLength
import SelectorMangling.Proofs.Rewriting.Size
import SelectorMangling.Proofs.Site.Shortening
import SelectorMangling.Proofs.Site.Separation
import SelectorMangling.Proofs.Site.RootFolder
import SelectorMangling.Proofs.Path.Dotless
import SelectorMangling.Proofs.Site.Unread
import SelectorMangling.Proofs.Site.CacheApart
import SelectorMangling.Proofs.Json.Members
import SelectorMangling.Proofs.Catalog.Members
import SelectorMangling.Proofs.Catalog.Extension
import SelectorMangling.Proofs.Catalog.Family
import SelectorMangling.Proofs.Site.Course
import SelectorMangling.Proofs.FileTree.Links
import SelectorMangling.Proofs.FileTree.Below
import SelectorMangling.Proofs.FileTree.Furnished
import SelectorMangling.Proofs.Site.Outside
import SelectorMangling.Proofs.Site.Rebuild
import SelectorMangling.Proofs.Rewriting.Rounds
import SelectorMangling.Proofs.Rewriting.Alike
import SelectorMangling.Proofs.Rewriting.Lines
import SelectorMangling.Proofs.Path.Canonical
import SelectorMangling.Proofs.Path.Order
import SelectorMangling.Proofs.Path.Extension
import SelectorMangling.Proofs.Site.Visited
import SelectorMangling.Proofs.FileTree.Relisted
import SelectorMangling.Proofs.Site.ListingOrder
import SelectorMangling.Proofs.Extraction.StyleArray
import SelectorMangling.Proofs.Extraction.Run
import SelectorMangling.Proofs.Extraction.Dotted
import SelectorMangling.Proofs.Extraction.Declared
import SelectorMangling.Proofs.Extraction.Stemmed
