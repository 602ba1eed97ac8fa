import TemplateEngine.Cache
import TemplateEngine.FileTree
import TemplateEngine.Proofs.Agreement
import TemplateEngine.Proofs.Ancestry
import TemplateEngine.Proofs.Caching
import TemplateEngine.Proofs.Chunking
import TemplateEngine.Proofs.CompilingInPlace
import TemplateEngine.Proofs.Conjunctions
import TemplateEngine.Proofs.Deepest
import TemplateEngine.Proofs.Dependencies
import TemplateEngine.Proofs.Endings
import TemplateEngine.Proofs.Escaping
import TemplateEngine.Proofs.Exactness
import TemplateEngine.Proofs.Excerpts
import TemplateEngine.Proofs.Extremes
import TemplateEngine.Proofs.Finishing
import TemplateEngine.Proofs.Joining
import TemplateEngine.Proofs.Literals
import TemplateEngine.Proofs.LongestMatch
import TemplateEngine.Proofs.Ordering
import TemplateEngine.Proofs.Overriding
import TemplateEngine.Proofs.Progressions
import TemplateEngine.Proofs.Quoting
import TemplateEngine.Proofs.Scoping
import TemplateEngine.Proofs.Seams
import TemplateEngine.Proofs.Streaming
import TemplateEngine.Proofs.Stripping
import TemplateEngine.Proofs.Survey
import TemplateEngine.Proofs.Tagless
import TemplateEngine.Proofs.Unescaping
import TemplateEngine.Settings
