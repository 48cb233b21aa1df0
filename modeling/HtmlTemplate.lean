import HtmlTemplate.Main
import HtmlTemplate.Proofs.Demo.Rows
import HtmlTemplate.Proofs.Document.Building
import HtmlTemplate.Proofs.Markup.Bookkeeping
import HtmlTemplate.Proofs.Markup.Terminators
import HtmlTemplate.Proofs.Pool.Custody
import HtmlTemplate.Proofs.Pool.Variables
import HtmlTemplate.Proofs.Rendering.Appending
import HtmlTemplate.Proofs.Rendering.Emptying
import HtmlTemplate.Proofs.Rendering.Endings
import HtmlTemplate.Proofs.Rendering.Halting
import HtmlTemplate.Proofs.Rendering.Keeping
import HtmlTemplate.Proofs.Rendering.Legibility
import HtmlTemplate.Proofs.Rendering.Progress
import HtmlTemplate.Proofs.Rendering.Separate
import HtmlTemplate.Proofs.Rendering.Transparency
import HtmlTemplate.Proofs.Rendering.Weaving
import HtmlTemplate.Proofs.Rendering.Wrapping
import HtmlTemplate.Proofs.Template.Causes
import HtmlTemplate.Proofs.Template.EndTags
import HtmlTemplate.Proofs.Template.Folding
import HtmlTemplate.Proofs.Template.Halves
import HtmlTemplate.Proofs.Text.Portions
import HtmlTemplate.Template.File
