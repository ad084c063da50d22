import StyleFunctions.Number.Binary64
import StyleFunctions.Number.Exact
import StyleFunctions.Session
import StyleFunctions.Proofs.Color.HueCircle
import StyleFunctions.Number.Checked
import StyleFunctions.Proofs.Number.Checked
import StyleFunctions.Proofs.Color.Division
import StyleFunctions.Proofs.Color.HslRoundTrip
import StyleFunctions.Proofs.Color.HueTurns
import StyleFunctions.Proofs.Color.Hex
import StyleFunctions.Proofs.Function.Lookup
import StyleFunctions.Proofs.Function.Dispatch
import StyleFunctions.Proofs.Function.Typing
import StyleFunctions.Proofs.Function.DataUrl
import StyleFunctions.Proofs.Color.Gamut
import StyleFunctions.Proofs.Function.Noninterference
import StyleFunctions.Proofs.Color.Defined
import StyleFunctions.Proofs.Color.Edits
import StyleFunctions.Proofs.Color.Palette
import StyleFunctions.Proofs.Text.Base64
import StyleFunctions.Proofs.Text.UrlEncoding
import StyleFunctions.Proofs.Color.Component
import StyleFunctions.Proofs.Number.Binary64
import StyleFunctions.Proofs.Color.HexRoundTrip
import StyleFunctions.Proofs.Function.Routing
import StyleFunctions.Proofs.Text.EncodedTemplate
import StyleFunctions.Proofs.Color.Fade
import StyleFunctions.Proofs.Color.Spin
import StyleFunctions.Proofs.Color.Accumulation
import StyleFunctions.Proofs.Color.Mixture
import StyleFunctions.Proofs.Number.Places
import StyleFunctions.Proofs.Function.Modulo
import StyleFunctions.Proofs.Function.Conversion
import StyleFunctions.Proofs.Color.HsvAgreement
import StyleFunctions.Proofs.Color.NegativeHues
import StyleFunctions.Proofs.Color.Lightness
import StyleFunctions.Proofs.Color.Blend
import StyleFunctions.Proofs.Text.Lossless
import StyleFunctions.Proofs.Number.Decimal
import StyleFunctions.Proofs.Function.Stamp
import StyleFunctions.Proofs.Error.Attachment
import StyleFunctions.Proofs.Source.Position
import StyleFunctions.Proofs.Session.Run
import StyleFunctions.Proofs.Files.History
