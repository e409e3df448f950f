import SyntaxAtlas.Main
import SyntaxAtlas.Proofs.Precedence
import SyntaxAtlas.Proofs.Words
import SyntaxAtlas.Proofs.Budget
import SyntaxAtlas.Proofs.Narrowing
import SyntaxAtlas.Proofs.Coordinates
import SyntaxAtlas.Proofs.Agreement
import SyntaxAtlas.Proofs.Acceptance
import SyntaxAtlas.Proofs.Options
import SyntaxAtlas.Proofs.Escaping
import SyntaxAtlas.Proofs.Spacing
import SyntaxAtlas.Proofs.Handling
import SyntaxAtlas.Proofs.Inputs
import SyntaxAtlas.Proofs.LineBreaks
import SyntaxAtlas.Proofs.Snippets
import SyntaxAtlas.Proofs.Seats
import SyntaxAtlas.Proofs.Spanned
import SyntaxAtlas.Proofs.Midway
import SyntaxAtlas.Proofs.Belonging
import SyntaxAtlas.Proofs.Locations
import SyntaxAtlas.Proofs.Labels
import SyntaxAtlas.Proofs.Carets
import SyntaxAtlas.Proofs.Colour
