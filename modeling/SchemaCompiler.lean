import SchemaCompiler.Declaration.Encoder
import SchemaCompiler.FileSystem.Disk
import SchemaCompiler.Main
import SchemaCompiler.Proofs.ForeignKey.Path
import SchemaCompiler.Report.Decoder
import SchemaCompiler.Schema.Decoder
import SchemaCompiler.Proofs.Column.Validation
import SchemaCompiler.Proofs.ForeignKey.Resolution
import SchemaCompiler.Proofs.Schema.Compilation
import SchemaCompiler.Proofs.Schema.Acceptance
import SchemaCompiler.Proofs.Schema.References
import SchemaCompiler.Proofs.Schema.Blame
import SchemaCompiler.Proofs.Schema.Order
import SchemaCompiler.FileSystem.Volume
import SchemaCompiler.Proofs.FileSystem.Path
import SchemaCompiler.Proofs.FileSystem.Volume
import SchemaCompiler.Proofs.FileSystem.Soundness
import SchemaCompiler.Proofs.Artifact.Layout
import SchemaCompiler.Proofs.Artifact.Writing
import SchemaCompiler.EsModule.Reader
import SchemaCompiler.EsModule.Evaluation
import SchemaCompiler.Proofs.Json.Quoted
import SchemaCompiler.Proofs.EsModule.Token
import SchemaCompiler.Proofs.EsModule.Reader
import SchemaCompiler.Proofs.EsModule.Evaluation
import SchemaCompiler.Proofs.Descriptor.Object
import SchemaCompiler.Proofs.Descriptor.Evaluation
import SchemaCompiler.Proofs.Descriptor.Module
import SchemaCompiler.Proofs.Column.Validity
import SchemaCompiler.Proofs.Descriptor.Emission
import SchemaCompiler.Proofs.Descriptor.Lookup
import SchemaCompiler.Proofs.Column.Limits
import SchemaCompiler.Proofs.Ddl.References
import SchemaCompiler.Proofs.Text.Determined
import SchemaCompiler.Proofs.Text.Decimal
import SchemaCompiler.Proofs.Ddl.Rendering
import SchemaCompiler.Proofs.Artifact.Agreement
import SchemaCompiler.Proofs.Batch.Scripts
import SchemaCompiler.Proofs.Batch.Modules
import SchemaCompiler.Proofs.ForeignKey.Direct
import SchemaCompiler.Proofs.Schema.Alike
import SchemaCompiler.Proofs.Schema.Respelling
import SchemaCompiler.Proofs.Declaration.RoundTrip
import SchemaCompiler.Proofs.Column.Redeclaration
import SchemaCompiler.Proofs.Descriptor.Redeclaration
import SchemaCompiler.Proofs.Report.RoundTrip
import SchemaCompiler.Proofs.Schema.RoundTrip
import SchemaCompiler.Proofs.Ddl.Order
import SchemaCompiler.Proofs.ForeignKey.Cycle
import SchemaCompiler.Proofs.Declaration.Encoding
import SchemaCompiler.Proofs.Column.Integer
import SchemaCompiler.Proofs.Descriptor.Enumeration
import SchemaCompiler.Proofs.Artifact.Bytes
import SchemaCompiler.Proofs.Descriptor.Lengths
import SchemaCompiler.Proofs.Batch.Names
