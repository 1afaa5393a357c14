import SchemaForest.Main
import SchemaForest.Proofs.Fallible
import SchemaForest.Proofs.Placement
import SchemaForest.Proofs.SourceOrder
import SchemaForest.Proofs.Offences
import SchemaForest.Proofs.DeclarationComments
import SchemaForest.Proofs.PropertyComments
import SchemaForest.Proofs.Attachment
import SchemaForest.Proofs.Inlining
import SchemaForest.Proofs.Recovery
import SchemaForest.Proofs.Schedule
import SchemaForest.Proofs.NodeShape
import SchemaForest.Proofs.DeclarationOrder
import SchemaForest.Proofs.Listing
import SchemaForest.Proofs.Reading
import SchemaForest.Proofs.Routes
import SchemaForest.Proofs.Exports
import SchemaForest.Proofs.Parentheses
import SchemaForest.Proofs.Runs
import SchemaForest.Proofs.TagPattern
import SchemaForest.Proofs.CommentLayout
import SchemaForest.Proofs.PlainSearch
import SchemaForest.Proofs.Dangling
import SchemaForest.Proofs.DecimalLiterals
import SchemaForest.Proofs.Numbering
import SchemaForest.Proofs.Elements
import SchemaForest.Proofs.FirstValue
