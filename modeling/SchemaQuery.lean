import SchemaQuery.Proofs.Http.Counting
import SchemaQuery.Proofs.Http.Explanation
import SchemaQuery.Proofs.Http.Overlap
import SchemaQuery.Proofs.Json.FirstFault
import SchemaQuery.Proofs.Query.FirstOffence
import SchemaQuery.Proofs.Service.Isolation
import SchemaQuery.Proofs.Settings.Layers
import SchemaQuery.Proofs.Sql.Defects
import SchemaQuery.Proofs.Sql.Patterns
import SchemaQuery.Proofs.Translation.Identity
import SchemaQuery.Proofs.Translation.Keywords
import SchemaQuery.Proofs.Translation.Mismatch
import SchemaQuery.Proofs.Translation.Noninterference
