import OrmDdl.Arguments.Reader
import OrmDdl.Arguments.Usage
import OrmDdl.FileTree.Basic
import OrmDdl.Main
import OrmDdl.Model.Basic
import OrmDdl.Mysql.Translator
import OrmDdl.Proofs.Json.Fields
import OrmDdl.Proofs.Json.Normal
import OrmDdl.Proofs.Json.Typed
import OrmDdl.Proofs.Model.ReadBack
import OrmDdl.Registry
import OrmDdl.Run.Basic
import OrmDdl.Schema.Store
import OrmDdl.Settings
import OrmDdl.Toml.Document
import OrmDdl.Proofs.FileTree.Writing
import OrmDdl.Proofs.Outcome
import OrmDdl.Proofs.Schema.SaveLoad
import OrmDdl.Proofs.Mysql.Acceptance
import OrmDdl.Proofs.Mysql.Batch
import OrmDdl.Proofs.Mysql.Independence
import OrmDdl.Proofs.Run.Stages
import OrmDdl.Proofs.FileTree.Order
import OrmDdl.Proofs.Schema.Folders
import OrmDdl.Proofs.Mysql.Tokens
import OrmDdl.Proofs.Mysql.TableText
import OrmDdl.Proofs.Mysql.ReadTable
import OrmDdl.Proofs.Run.Paragraphs
import OrmDdl.Proofs.Settings.Layers
import OrmDdl.Proofs.Json.Nesting
import OrmDdl.Proofs.Json.Locality
import OrmDdl.Proofs.Json.LocalScalars
import OrmDdl.Proofs.Json.LocalValues
import OrmDdl.Proofs.Json.LocalRecords
import OrmDdl.Proofs.Model.Locality
import OrmDdl.Proofs.Json.Grammar
import OrmDdl.Proofs.Schema.Layouts
import OrmDdl.Proofs.Mysql.Literals
import OrmDdl.Proofs.Double.Exact
import OrmDdl.Proofs.Mysql.IntegerRange
import OrmDdl.Proofs.Mysql.KeyColumn
import OrmDdl.Proofs.Json.Spelling
import OrmDdl.Proofs.Json.Passing
import OrmDdl.Proofs.Json.Members
import OrmDdl.Proofs.Schema.Versions
import OrmDdl.Proofs.Mysql.Precedence
import OrmDdl.Proofs.Mysql.Clauses
import OrmDdl.Proofs.Mysql.IndexSets
import OrmDdl.Proofs.Json.Outcomes
import OrmDdl.Proofs.Json.Tree
import OrmDdl.Proofs.Json.OfCompound
import OrmDdl.Proofs.Json.OfTree
import OrmDdl.Proofs.Json.OfRecord
import OrmDdl.Proofs.Json.Rearranged
import OrmDdl.Proofs.Json.RearrangedRecords
import OrmDdl.Proofs.Model.Places
import OrmDdl.Proofs.Json.Lookup
import OrmDdl.Proofs.Schema.MemberOrder
import OrmDdl.Proofs.Model.TypeDeclarations
import OrmDdl.Proofs.Mysql.IntegerWidths
import OrmDdl.Proofs.InsertionOrder
