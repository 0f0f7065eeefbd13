import MysqlSlave.Lib.Region
import MysqlSlave.Lib.BigEndian
import MysqlSlave.Lib.SignedBytes
import MysqlSlave.Lib.FixedDigits
import MysqlSlave.Lib.DecimalText
import MysqlSlave.Lib.OrderedMap
import MysqlSlave.Lib.SearchTree
import MysqlSlave.Lib.Bitmap
import MysqlSlave.Lib.Run
import MysqlSlave.Lib.ResumingReader
import MysqlSlave.Lib.MeasuredLoop
import MysqlSlave.Lib.Yields
import MysqlSlave.Lib.Simulation
import MysqlSlave.Lib.KeyedStore
import MysqlSlave.Lib.Replay
import MysqlSlave.LogEvent
import MysqlSlave.ColumnMask
import MysqlSlave.Value
import MysqlSlave.Temporal
import MysqlSlave.StoredDates
import MysqlSlave.Printing
import MysqlSlave.Decimal
import MysqlSlave.DecimalFormat
import MysqlSlave.DecimalRoundTrip
import MysqlSlave.Jsonb
import MysqlSlave.JsonbFormat
import MysqlSlave.JsonbRoundTrip
import MysqlSlave.JsonbBounds
import MysqlSlave.JsonbForms
import MysqlSlave.JsonbSafety
import MysqlSlave.ColumnDesc
import MysqlSlave.Database
import MysqlSlave.LogParser
import MysqlSlave.ReplicationLoop
import MysqlSlave.Preparation
import MysqlSlave.Dispatch
import MysqlSlave.Negotiation
import MysqlSlave.ChecksumGate
import MysqlSlave.TableBindings
import MysqlSlave.RowImage
import MysqlSlave.RowLoop
import MysqlSlave.RowData
import MysqlSlave.FieldBounds
import MysqlSlave.RowBounds
import MysqlSlave.RowDataBounds
import MysqlSlave.RowBuffer
import MysqlSlave.RowHistory
import MysqlSlave.ColumnLookup
import MysqlSlave.RowFormat
import MysqlSlave.EventFormat
import MysqlSlave.RowsEventFormat
import MysqlSlave.RowsHeader
import MysqlSlave.TableSchema
import MysqlSlave.PacketBounds
import MysqlSlave.EventDispatch
import MysqlSlave.SchemaFreshness
import MysqlSlave.Routing
import MysqlSlave.Delivery
import MysqlSlave.ErrorRecovery
import MysqlSlave.ImageFormat
import MysqlSlave.RowRoundTrip
import MysqlSlave.PartialImage
import MysqlSlave.FractionalColumns
import MysqlSlave.IntegerColumns
import MysqlSlave.BitColumns
import MysqlSlave.QueryFormat
import MysqlSlave.ResumeRequest
import MysqlSlave.FieldFraming
import MysqlSlave.UsedColumns
import MysqlSlave.MemberLists
import MysqlSlave.ChoiceColumns
import MysqlSlave.Binlog
import MysqlSlave.Checkpoints
import MysqlSlave.MasterSession
import MysqlSlave.Resumption
import MysqlSlave.ChangeLog
import MysqlSlave.ChangeStream
import MysqlSlave.Convergence
import MysqlSlave.Lib.IdleSteps
import MysqlSlave.UnwatchedTables
import MysqlSlave.Watching
import MysqlSlave.ServerSchema
import MysqlSlave.NamedColumns
import MysqlSlave.ReadThrough
import MysqlSlave.Lib.Projection
import MysqlSlave.ReusedEvents
import MysqlSlave.TypedColumns
import MysqlSlave.TypedRows
import MysqlSlave.ValueEquality
import MysqlSlave.TableInvariants
import MysqlSlave.RowShapes
import MysqlSlave.Lib.OStream
import MysqlSlave.ValueStream
