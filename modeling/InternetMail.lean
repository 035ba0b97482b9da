import InternetMail.Address.Local
import InternetMail.Logger
import InternetMail.Message.Content
import InternetMail.Proofs.Address.Bounds
import InternetMail.Proofs.Address.Concatenation
import InternetMail.Proofs.Address.FoldedLines
import InternetMail.Proofs.Address.GivenName
import InternetMail.Proofs.Address.NameForms
import InternetMail.Proofs.Address.Nested
import InternetMail.Proofs.Address.Spaced
import InternetMail.Proofs.Address.Spans
import InternetMail.Proofs.Address.Validation
import InternetMail.Proofs.Content.Registry
import InternetMail.Proofs.ContentType.RoundTrip
import InternetMail.Proofs.EncodedWord.Concatenation
import InternetMail.Proofs.EncodedWord.Packing
import InternetMail.Proofs.Flags.Refinement
import InternetMail.Proofs.Header.History
import InternetMail.Proofs.Header.Spelling
import InternetMail.Proofs.Message.ContentType
import InternetMail.Proofs.Message.DeclaredCharset
import InternetMail.Proofs.Message.Injection
import InternetMail.Proofs.Message.Partition
import InternetMail.Proofs.Message.Reading
import InternetMail.Proofs.Message.Recipients
import InternetMail.Proofs.Message.Replacement
import InternetMail.Proofs.Message.Subject
import InternetMail.Proofs.Search
import InternetMail.Proofs.TransferEncoding.LineBreaks
import InternetMail.Proofs.TransferEncoding.Transport
import InternetMail.QuotedPrintable.Escape
import InternetMail.Search
